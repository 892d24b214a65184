import AllInDocker.Lib.TimedStore
import AllInDocker.Redis.Command

/-!
The key space of the Redis server, for the commands the scripts send: `GET`, `INCR`, `EXPIRE`
and `SET` with `EX`. Each is executed at once and atomically; `INCR` keeps the deadline of an
existing key and creates a missing one with the value `1` and none. Each reads and writes the
key it names and no other (`exec_congr`, `exec_of_ne`).
-/

namespace AllInDocker

/-- The server's clock, in seconds. -/
abbrev Time := ℚ

/-- The value of a key: a string that is the numeral of an integer, another string, or a
value of another type (a list, a hash, ...). -/
inductive RedisVal where
  | int (n : ℤ)
  | raw (s : String) (h : ∀ n : ℤ, s ≠ toString n)
  | other

/-- The keys of the server with their values and deadlines. -/
abbrev Store := TimedStore String RedisVal Time

namespace Store

/-- The error replies of the server. -/
def wrongType : String := "WRONGTYPE Operation against a key holding the wrong kind of value"

@[inherit_doc wrongType]
def notInteger : String := "ERR value is not an integer or out of range"

@[inherit_doc wrongType]
def overflow : String := "ERR increment or decrement would overflow"

/-- Execute a command at the given time. -/
def exec (now : Time) (s : Store) (c : Command) : Store × Reply :=
  match c.name, c.args with
  | .get, [.str k] =>
      match s.lookup now k with
      | none => (s, .null)
      | some ⟨.int n, _⟩ => (s, .str (toString n))
      | some ⟨.raw t _, _⟩ => (s, .str t)
      | some ⟨.other, _⟩ => (s, .error wrongType)
  | .incr, [.str k] =>
      match s.lookup now k with
      | none => (s.put k ⟨.int 1, none⟩, .int 1)
      | some ⟨.int n, d⟩ =>
          if n < -2 ^ 63 ∨ 2 ^ 63 ≤ n then (s, .error notInteger)
          else if n + 1 = 2 ^ 63 then (s, .error overflow)
          else (s.put k ⟨.int (n + 1), d⟩, .int (n + 1))
      | some ⟨.raw _ _, _⟩ => (s, .error notInteger)
      | some ⟨.other, _⟩ => (s, .error wrongType)
  | .expire, [.str k, .num seconds] =>
      match s.lookup now k with
      | none => (s, .int 0)
      | some e => (s.put k { e with deadline := some (now + seconds) }, .int 1)
  | .set, [.str k, .num v, .str "EX", .num seconds] =>
      if seconds ≤ 0 then (s, .error "ERR invalid expire time in set")
      else (s.put k ⟨.int v, some (now + seconds)⟩, .str "OK")
  | _, _ => (s, .error "ERR unknown command")

variable {s : Store} {now : Time} {k : String}

/-! ### One lemma for each command -/

/-- `GET` changes nothing. -/
@[simp] lemma exec_get_store : (s.exec now (.get k)).1 = s := by
  simp only [exec, Command.get]
  split <;> rfl

lemma exec_get_of_none (h : s.lookup now k = none) : s.exec now (.get k) = (s, .null) := by
  simp [exec, Command.get, h]

lemma exec_get_of_int {n : ℤ} {d : Option Time} (h : s.lookup now k = some ⟨.int n, d⟩) :
    s.exec now (.get k) = (s, .str (toString n)) := by
  simp [exec, Command.get, h]

/-- `INCR` of a missing key creates it with the value `1` and no deadline. -/
lemma exec_incr_of_none (h : s.lookup now k = none) :
    s.exec now (.incr k) = (s.put k ⟨.int 1, none⟩, .int 1) := by
  simp [exec, Command.incr, h]

/-- `INCR` of an integer within range adds `1` and keeps the deadline. -/
lemma exec_incr_of_int {n : ℤ} {d : Option Time} (h : s.lookup now k = some ⟨.int n, d⟩)
    (hok : (s.exec now (.incr k)).2.isError = false) :
    s.exec now (.incr k) = (s.put k ⟨.int (n + 1), d⟩, .int (n + 1)) := by
  simp only [exec, Command.incr, h] at hok ⊢
  split_ifs at hok ⊢ with h1 h2
  · simp [Reply.isError] at hok
  · simp [Reply.isError] at hok
  · rfl

/-- An `INCR` without an error is answered with an integer. -/
lemma exec_incr_reply (hok : (s.exec now (.incr k)).2.isError = false) :
    ∃ n : ℤ, (s.exec now (.incr k)).2 = .int n := by
  cases h : s.lookup now k with
  | none => exact ⟨1, by rw [exec_incr_of_none h]⟩
  | some e =>
      obtain ⟨v, d⟩ := e
      cases v with
      | int n => exact ⟨n + 1, by rw [exec_incr_of_int h hok]⟩
      | raw t ht => simp [exec, Command.incr, h, Reply.isError] at hok
      | other => simp [exec, Command.incr, h, Reply.isError] at hok

/-- What `INCR` does to the store, whatever it is answered. -/
lemma exec_incr_store (s : Store) (now : Time) (k : String) :
    (s.exec now (.incr k)).1 = s ∨
    (s.lookup now k = none ∧ (s.exec now (.incr k)).1 = s.put k ⟨.int 1, none⟩) ∨
    ∃ n d, s.lookup now k = some ⟨.int n, d⟩ ∧
      (s.exec now (.incr k)).1 = s.put k ⟨.int (n + 1), d⟩ := by
  cases h : s.lookup now k with
  | none => exact Or.inr (Or.inl ⟨rfl, by rw [exec_incr_of_none h]⟩)
  | some e =>
      obtain ⟨v, d⟩ := e
      cases v with
      | int n =>
          cases hok : (s.exec now (.incr k)).2.isError with
          | false => exact Or.inr (Or.inr ⟨n, d, rfl, by rw [exec_incr_of_int h hok]⟩)
          | true =>
              left
              simp only [exec, Command.incr, h] at hok ⊢
              split_ifs at hok ⊢
              · rfl
              · rfl
              · simp [Reply.isError] at hok
      | raw t ht => exact Or.inl (by simp [exec, Command.incr, h])
      | other => exact Or.inl (by simp [exec, Command.incr, h])

lemma exec_expire_of_none {n : ℤ} (h : s.lookup now k = none) :
    s.exec now (.expire k n) = (s, .int 0) := by
  simp [exec, Command.expire, h]

/-- `EXPIRE` of a key that is there moves its deadline. -/
lemma exec_expire_of_some {e : Entry RedisVal Time} {n : ℤ} (h : s.lookup now k = some e) :
    s.exec now (.expire k n) =
      (s.put k { e with deadline := some (now + n) }, .int 1) := by
  simp [exec, Command.expire, h]

lemma exec_expire_reply (n : ℤ) : ∃ m ≤ 1, (s.exec now (.expire k n)).2 = .int m := by
  cases h : s.lookup now k with
  | none => exact ⟨0, by norm_num, by rw [exec_expire_of_none h]⟩
  | some e => exact ⟨1, le_rfl, by rw [exec_expire_of_some h]⟩

/-- `SET ... EX` writes the key with a deadline. -/
lemma exec_setEx {v n : ℤ} (hn : 0 < n) :
    s.exec now (.setEx k v n) = (s.put k ⟨.int v, some (now + n)⟩, .str "OK") := by
  simp [exec, Command.setEx, hn]

/-! ### Its key only -/

/-- The key a command names. -/
def key (c : Command) : Option String :=
  match c.args with
  | .str k :: _ => some k
  | _ => none

/-- A command does nothing to other keys. -/
lemma exec_of_ne {c : Command} (h : key c ≠ some k) : (s.exec now c).1 k = s k := by
  have hput : ∀ {k'} (e : Entry RedisVal Time), key c = some k' → s.put k' e k = s k := by
    intro k' e hk'
    refine TimedStore.put_of_ne s ?_ e
    rintro rfl
    exact h hk'
  unfold exec
  split
  · split <;> rfl
  · next hargs =>
      split
      · exact hput _ (by simp [key, hargs])
      · split_ifs
        · rfl
        · rfl
        · exact hput _ (by simp [key, hargs])
      · rfl
      · rfl
  · next hargs =>
      split
      · rfl
      · exact hput _ (by simp [key, hargs])
  · next hargs =>
      split_ifs
      · rfl
      · exact hput _ (by simp [key, hargs])
  · rfl

/-- What a command does and is answered depends on its key only. -/
lemma exec_congr {s' : Store} {c : Command} (h : ∀ k, key c = some k → s k = s' k) :
    (s.exec now c).2 = (s'.exec now c).2 ∧
      ∀ k, s k = s' k → (s.exec now c).1 k = (s'.exec now c).1 k := by
  have hlook : ∀ {k}, key c = some k → s.lookup now k = s'.lookup now k := by
    intro k hk
    rw [TimedStore.lookup, TimedStore.lookup, h k hk]
  have hput : ∀ (k' : String) (e : Entry RedisVal Time) (k : String), s k = s' k →
      s.put k' e k = s'.put k' e k := by
    intro k' e k hk
    by_cases hkk : k = k'
    · subst hkk
      simp
    · rw [TimedStore.put_of_ne _ hkk, TimedStore.put_of_ne _ hkk, hk]
  unfold exec
  split
  · next hargs =>
      rw [hlook (by simp [key, hargs])]
      split <;> exact ⟨rfl, fun _ hk => hk⟩
  · next hargs =>
      rw [hlook (by simp [key, hargs])]
      split
      · exact ⟨rfl, hput _ _⟩
      · split_ifs
        · exact ⟨rfl, fun _ hk => hk⟩
        · exact ⟨rfl, fun _ hk => hk⟩
        · exact ⟨rfl, hput _ _⟩
      · exact ⟨rfl, fun _ hk => hk⟩
      · exact ⟨rfl, fun _ hk => hk⟩
  · next hargs =>
      rw [hlook (by simp [key, hargs])]
      split
      · exact ⟨rfl, fun _ hk => hk⟩
      · exact ⟨rfl, hput _ _⟩
  · split_ifs
    · exact ⟨rfl, fun _ hk => hk⟩
    · exact ⟨rfl, hput _ _⟩
  · exact ⟨rfl, fun _ hk => hk⟩

end Store

end AllInDocker
