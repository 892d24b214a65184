import AllInDocker.Wrapper.Isolation.Protocol

/-!
The steps of a caller on the pool: what it knows of its connection stays true (`Holds`), idle
connections stay fresh, and the connections of the others are left alone (`kept_perform`).
-/

namespace AllInDocker

open Coro

/-! ### The invariant -/

/-- A caller holds a connection with the given property. -/
def Owns (conns : List Conn) (i : ℕ) (h : Hands) (p : Conn → Prop) : Prop :=
  ∃ n c, h.conn = some n ∧ conns[n]? = some c ∧ c.place = .held i ∧ p c

/-- What a caller knows is true of its connection. -/
def Holds (conf : ServerConf) (conns : List Conn) (i : ℕ) (h : Hands) : Stage → Prop
  | .free => h.conn = none ∨ Owns conns i h fun _ => True
  | .linked => Owns conns i h fun c =>
      c.session = if c.reused = 0 then .connected conf else .fresh
  | .raw => Owns conns i h fun c => c.session = .connected conf
  | .ready => Owns conns i h fun c => c.session = .fresh
  | .piping cs => h.piped = cs ∧ Owns conns i h fun c => c.session = .fresh

/-- All idle connections are fresh. -/
def IdleFresh (conns : List Conn) : Prop :=
  ∀ (n : ℕ) (c : Conn), conns[n]? = some c → c.place = .idle → c.session = .fresh

/-- Caller `i` has left the connections of all others alone. -/
def Apart (i : ℕ) (conns conns' : List Conn) : Prop :=
  ∀ (n : ℕ) (c : Conn) (j : ℕ), conns[n]? = some c → c.place = .held j → j ≠ i →
    conns'[n]? = some c

section Moves

variable {conf : ServerConf} {conns conns' conns'' : List Conn} {i : ℕ} {h : Hands} {k : Stage}

lemma Owns.imp {p q : Conn → Prop} (ho : Owns conns i h p) (hpq : ∀ c, p c → q c) :
    Owns conns i h q := by
  obtain ⟨n, c, hn, hc, hplace, hp⟩ := ho
  exact ⟨n, c, hn, hc, hplace, hpq c hp⟩

lemma Owns.apart {p : Conn → Prop} {j : ℕ} (ho : Owns conns j h p) (ha : Apart i conns conns')
    (hj : j ≠ i) : Owns conns' j h p := by
  obtain ⟨n, c, hn, hc, hplace, hp⟩ := ho
  exact ⟨n, c, hn, ha n c j hc hplace hj, hplace, hp⟩

/-- What the others know stays true. -/
lemma Holds.apart {j : ℕ} (hh : Holds conf conns j h k) (ha : Apart i conns conns')
    (hj : j ≠ i) : Holds conf conns' j h k := by
  cases k with
  | free => exact hh.imp id fun ho => ho.apart ha hj
  | linked => exact Owns.apart hh ha hj
  | raw => exact Owns.apart hh ha hj
  | ready => exact Owns.apart hh ha hj
  | piping cs => exact ⟨hh.1, hh.2.apart ha hj⟩

/-- Whatever a caller knows, it holds no connection or one of its own. -/
lemma Holds.free (hh : Holds conf conns i h k) : Holds conf conns i h .free := by
  cases k with
  | free => exact hh
  | linked => exact Or.inr (Owns.imp hh fun _ _ => trivial)
  | raw => exact Or.inr (Owns.imp hh fun _ _ => trivial)
  | ready => exact Or.inr (Owns.imp hh fun _ _ => trivial)
  | piping cs => exact Or.inr (hh.2.imp fun _ _ => trivial)

lemma Apart.refl (i : ℕ) (conns : List Conn) : Apart i conns conns := fun _ _ _ hc _ _ => hc

lemma Apart.trans (h₁ : Apart i conns conns') (h₂ : Apart i conns' conns'') :
    Apart i conns conns'' := fun n c j hc hp hj => h₂ n c j (h₁ n c j hc hp hj) hp hj

/-- Changing a connection that no other caller holds. -/
lemma apart_set {n : ℕ} {c c' : Conn} (hc : conns[n]? = some c)
    (hplace : c.place = .held i ∨ c.place = .idle) : Apart i conns (conns.set n c') := by
  intro m d j hd hdp hj
  have hne : n ≠ m := by
    rintro rfl
    rw [hc, Option.some.injEq] at hd
    subst hd
    rcases hplace with hp | hp <;> rw [hp] at hdp
    · exact hj (Place.held.inj hdp).symm
    · exact absurd hdp (by simp)
  rw [List.getElem?_set_ne hne]
  exact hd

/-- Replacing a connection by one that is not idle, or fresh, keeps the idle ones fresh. -/
lemma IdleFresh.set (hidle : IdleFresh conns) {n : ℕ} {c' : Conn}
    (hc' : c'.place = .idle → c'.session = .fresh) : IdleFresh (conns.set n c') := by
  intro m d hd hdp
  rw [List.getElem?_set] at hd
  split_ifs at hd with hnm hlt
  · obtain rfl := Option.some.inj hd
    exact hc' hdp
  · exact hidle m d hd hdp

/-- What an operation of caller `i` has to keep, with the stage it leads to. -/
structure Kept (conf : ServerConf) (i : ℕ) (w : Shared) (k : Stage) (h : Hands) (w' : Shared) :
    Prop where
  holds : Holds conf w'.conns i h k
  idle : IdleFresh w'.conns
  apart : Apart i w.conns w'.conns
  log : ∀ x ∈ w'.log, x ∈ w.log ∨ x.session = .fresh

variable {w : Shared} {ch : Choice}

/-- An operation that changes no connection. -/
lemma kept_same {h' : Hands} {k' : Stage} (hidle : IdleFresh w.conns)
    (hh : Holds conf w.conns i h' k') : Kept conf i w k' h' w :=
  ⟨hh, hidle, Apart.refl i w.conns, fun _ hx => Or.inl hx⟩

/-- An operation that changes the connection of the caller, and not its place. -/
lemma kept_set {n : ℕ} {c : Conn} {s : Session} {hung : Bool} {log : List Executed}
    {k' : Stage} {h' : Hands} (hidle : IdleFresh w.conns) (hc : w.conns[n]? = some c)
    (hplace : c.place = .held i) (hlog : ∀ x ∈ log, x ∈ w.log ∨ x.session = .fresh)
    (hh : Holds conf (w.conns.set n { c with session := s, hungUp := hung }) i h' k') :
    Kept conf i w k' h' ⟨w.conns.set n { c with session := s, hungUp := hung }, log⟩ := by
  refine ⟨hh, hidle.set fun hp => ?_, apart_set hc (Or.inl hplace), hlog⟩
  rw [hplace] at hp
  exact absurd hp (by simp)

/-- The connection of the caller after a change. -/
lemma owns_set {n : ℕ} {c c' : Conn} {p : Conn → Prop} (hn : h.conn = some n)
    (hc : conns[n]? = some c) (hplace : c'.place = .held i) (hp : p c') :
    Owns (conns.set n c') i h p := by
  refine ⟨n, c', hn, ?_, hplace, hp⟩
  rw [List.getElem?_set_self (List.getElem?_eq_some_iff.mp hc).1]

/-- Closing the connection of the caller. -/
lemma kept_close (hidle : IdleFresh w.conns) (hh : Holds conf w.conns i h .free) :
    Kept conf i w .free ⟨none, []⟩ (w.close h.conn) := by
  rcases hh with hnone | ⟨n, c, hn, hc, hplace, -⟩
  · rw [hnone]
    exact kept_same hidle (Or.inl rfl)
  · rw [hn, Shared.close, List.modify_eq_set_getElem?, hc]
    exact ⟨Or.inl rfl, hidle.set (by simp), apart_set hc (Or.inl hplace), fun _ hx => Or.inl hx⟩

/-- Opening a new connection. -/
lemma kept_open (hidle : IdleFresh w.conns) :
    Kept conf i w .linked ⟨some w.conns.length, []⟩
      { w with conns := w.conns ++ [⟨.connected conf, 0, .held i, false⟩] } := by
  refine ⟨⟨w.conns.length, ⟨.connected conf, 0, .held i, false⟩, rfl, by simp, rfl, ?_⟩,
    fun m d hd hdp => ?_, fun m d j hd _ _ => ?_, fun _ hx => Or.inl hx⟩
  · simp
  · rw [List.getElem?_append] at hd
    split_ifs at hd with hlt
    · exact hidle m d hd hdp
    · have hd' := List.mem_singleton.mp (List.mem_of_getElem? hd)
      rw [hd'] at hdp
      exact absurd hdp (by simp)
  · simp only
    rw [List.getElem?_append_left (List.getElem?_eq_some_iff.mp hd).1]
    exact hd

/-- Connecting, from no connection: an idle one is fresh, a new one is not authenticated. -/
lemma kept_connect (hidle : IdleFresh w.conns) (take : Option ℕ) :
    Kept conf i w .linked ⟨some (w.connect conf i take).2, []⟩ (w.connect conf i take).1 := by
  rw [Shared.connect]
  split
  · rename_i n c htake
    obtain ⟨n', -, hmap⟩ := Option.bind_eq_some_iff.mp htake
    obtain ⟨c', hc, heq⟩ := Option.map_eq_some_iff.mp hmap
    obtain ⟨rfl, rfl⟩ := Prod.mk.inj heq
    split_ifs with hplace
    · refine ⟨owns_set rfl hc rfl ?_, hidle.set (by simp), apart_set hc (Or.inr hplace),
        fun _ hx => Or.inl hx⟩
      simp only [Nat.add_eq_zero_iff, one_ne_zero, and_false, if_false]
      exact hidle _ _ hc hplace
    · exact kept_open hidle
  · exact kept_open hidle

/-- A fresh session is authenticated by the right password only. -/
lemma auth_connected {password : String}
    (hok : ((Session.connected conf).auth conf password).2.isError = false) :
    ((Session.connected conf).auth conf password).1 = .fresh := by
  rw [Session.auth] at hok ⊢
  split at hok
  · simp [Reply.isError] at hok
  · split_ifs at hok ⊢
    · rfl
    · simp [Reply.isError] at hok

lemma kept_auth {password : String} (hidle : IdleFresh w.conns)
    (hh : Holds conf w.conns i h .raw) :
    Kept conf i w ((lending conf).next .raw (.auth password)
      (perform conf i ch (.auth password) (h, w)).1)
      (perform conf i ch (.auth password) (h, w)).2.1
      (perform conf i ch (.auth password) (h, w)).2.2 := by
  obtain ⟨n, c, hn, hc, hplace, hsession⟩ := hh
  simp only [perform, hn, Option.bind_some, hc, Option.map_some]
  split_ifs with hfail
  · exact kept_set hidle hc hplace (fun _ hx => Or.inl hx)
      (Or.inr (owns_set hn hc hplace trivial))
  · refine kept_set hidle hc hplace (fun _ hx => Or.inl hx) (owns_set hn hc hplace ?_)
    simp only [Bool.or_eq_true, not_or, Bool.not_eq_true] at hfail
    rw [hsession] at hfail ⊢
    exact auth_connected hfail.2

/-- A harmless command on a fresh session: one reply, and if it is no error the session is
fresh again. -/
lemma processAll_of_harmless {cmd : Command} (hcmd : Session.Harmless conf cmd)
    (o : ℕ → Oracle) : ∃ r, (Session.fresh.processAll conf o [cmd]).2 = [r] ∧
      (r.isError = false → (Session.fresh.processAll conf o [cmd]).1 = .fresh) := by
  by_cases hquit : cmd.name = .quit
  · exact ⟨.str "OK", by simp [Session.processAll, hquit], fun _ => by
      simp [Session.processAll, hquit]⟩
  · refine ⟨(Session.fresh.process conf (o 0) cmd).2, by simp [Session.processAll, hquit],
      fun hok => ?_⟩
    simp only [Session.processAll, hquit, if_false]
    exact (hcmd.resolve_left hquit) (o 0) hok

/-- What executing commands on a fresh session adds to the log. -/
lemma fresh_of_mem_log {s : Session} (hs : s = .fresh) (cs : List Command) :
    ∀ x ∈ (if cs.isEmpty then w.log else ⟨i, s⟩ :: w.log : List Executed),
      x ∈ w.log ∨ x.session = .fresh := by
  intro x hx
  split_ifs at hx
  · exact Or.inl hx
  · rcases List.mem_cons.mp hx with rfl | hx
    · exact Or.inr hs
    · exact Or.inl hx

lemma kept_command {cmd : Command} (hidle : IdleFresh w.conns)
    (hh : Holds conf w.conns i h .ready) (hcmd : Session.Harmless conf cmd) :
    Kept conf i w ((lending conf).next .ready (.command cmd)
      (perform conf i ch (.command cmd) (h, w)).1)
      (perform conf i ch (.command cmd) (h, w)).2.1
      (perform conf i ch (.command cmd) (h, w)).2.2 := by
  have hfree := hh.free
  obtain ⟨n, c, hn, hc, hplace, hsession⟩ := hh
  simp only [perform, hn, Option.bind_some, hc, Option.map_some]
  split_ifs with hclosed
  · exact kept_same hidle hfree
  obtain ⟨r, hr, hfresh⟩ := processAll_of_harmless hcmd ch.oracle
  have hlog := fresh_of_mem_log (w := w) (i := i) hsession [cmd]
  simp only [Shared.execute, List.isEmpty_cons, Bool.false_eq_true, if_false] at hlog ⊢
  cases hfails : ch.fails with
  | true => exact kept_set hidle hc hplace hlog (Or.inr (owns_set hn hc hplace trivial))
  | false =>
      rw [hsession, hr] at *
      cases herr : r.isError with
      | true =>
          cases r with
          | error e => exact kept_set hidle hc hplace hlog (Or.inr (owns_set hn hc hplace trivial))
          | _ => simp [Reply.isError] at herr
      | false =>
          have hnext : (lending conf).next .ready (.command cmd) r.result = .ready := by
            cases r <;> first | rfl | simp [Reply.isError] at herr
          simp only [hnext]
          exact kept_set hidle hc hplace hlog (owns_set hn hc hplace (hfresh herr))

lemma kept_commitPipeline {cs : List Command} (hidle : IdleFresh w.conns)
    (hh : Holds conf w.conns i h (.piping cs)) (hcs : Session.HarmlessAll conf cs) :
    Kept conf i w ((lending conf).next (.piping cs) .commitPipeline
      (perform conf i ch .commitPipeline (h, w)).1)
      (perform conf i ch .commitPipeline (h, w)).2.1
      (perform conf i ch .commitPipeline (h, w)).2.2 := by
  have hfree := hh.free
  obtain ⟨rfl, n, c, hn, hc, hplace, hsession⟩ := hh
  have hlog := fresh_of_mem_log (w := w) (i := i) hsession
  simp only [perform, hn, Option.bind_some, hc, Option.map_some]
  split_ifs with hclosed hfails hlen
  · exact kept_same hidle hfree
  · exact kept_set hidle hc hplace (hlog _) (Or.inr (owns_set hn hc hplace trivial))
  · refine kept_set hidle hc hplace (hlog _) (owns_set rfl hc hplace ?_)
    rw [hsession]
    exact hcs ch.oracle
  · exact kept_set hidle hc hplace (hlog _) (Or.inr (owns_set rfl hc hplace trivial))

/-- Every operation the protocol allows keeps the invariant and leads to the next stage. -/
lemma kept_perform (ch : Choice) {op : NetOp Command} (hidle : IdleFresh w.conns)
    (hh : Holds conf w.conns i h k) (hallow : (lending conf).allow k op) :
    Kept conf i w ((lending conf).next k op (perform conf i ch op (h, w)).1)
      (perform conf i ch op (h, w)).2.1 (perform conf i ch op (h, w)).2.2 := by
  cases op with
  | new => exact kept_same hidle (Or.inl rfl)
  | connect t host port =>
      have hclosed := kept_close hidle hh.free
      simp only [perform]
      split_ifs
      · exact hclosed
      · have hconn := @kept_connect conf i _ hclosed.idle ch.take
        exact ⟨hconn.holds, hconn.idle, hclosed.apart.trans hconn.apart, fun x hx =>
          (hconn.log x hx).elim (hclosed.log x) Or.inr⟩
  | getReusedTimes =>
      obtain rfl : k = .linked := hallow
      have hfree := hh.free
      obtain ⟨n, c, hn, hc, hplace, hsession⟩ := hh
      simp only [perform, hn, Option.bind_some, hc]
      split_ifs
      · exact kept_same hidle hfree
      · cases hreused : c.reused with
        | zero => exact kept_same hidle ⟨n, c, hn, hc, hplace, by simpa [hreused] using hsession⟩
        | succ m => exact kept_same hidle ⟨n, c, hn, hc, hplace, by simpa [hreused] using hsession⟩
  | auth password =>
      obtain rfl : k = .raw := hallow
      exact kept_auth hidle hh
  | command cmd =>
      obtain ⟨rfl, hcmd⟩ := hallow
      exact kept_command hidle hh hcmd
  | initPipeline =>
      obtain rfl : k = .ready := hallow
      exact kept_same hidle ⟨rfl, hh⟩
  | pipe cmd =>
      obtain ⟨cs, rfl⟩ := hallow
      obtain ⟨rfl, howns⟩ := hh
      exact kept_same hidle ⟨rfl, howns⟩
  | commitPipeline =>
      obtain ⟨cs, rfl, hcs⟩ := hallow
      exact kept_commitPipeline hidle hh hcs
  | setKeepalive t size =>
      obtain rfl : k = .ready := hallow
      have hclosed := kept_close hidle hh.free
      obtain ⟨n, c, hn, hc, hplace, hsession⟩ := hh
      simp only [perform]
      split_ifs
      · exact hclosed
      · simp only [hn, List.modify_eq_set_getElem?, hc]
        exact ⟨Or.inl rfl, hidle.set fun _ => hsession, apart_set hc (Or.inl hplace),
          fun _ hx => Or.inl hx⟩

end Moves

end AllInDocker
