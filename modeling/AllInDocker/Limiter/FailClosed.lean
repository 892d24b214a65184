import AllInDocker.Limiter.System

/-!
One request of the limiter, when any of its commands may fail.

Each command meets a `Moment`: a link, a time and the store as all others have left it.
`serve` runs the script in such an environment and records the commands it issued.

* `FailsClosed`: the request gets through only if all its commands succeeded, and it was
  counted once.
* `failsClosed_iff`: this holds exactly in the environments that are `Guarded`. A failed
  `INCR`, or `EXPIRE` of a new counter, stops the request; a failed `GET` of a block key or
  `SET` of a ban does not.
* `banned_client_passes`: so a banned client gets through when the read of its ban fails.
-/

namespace AllInDocker

open Coro

/-- What a command meets: the link, the time and the store. -/
structure Moment where
  link : Link
  now : Time
  store : Store

/-- A command a script has issued, and what it met. -/
structure Issued where
  cmd : Command
  moment : Moment

/-- What the commands of a request meet, by their number. -/
abbrev Env := ℕ → Moment

namespace Moment

variable (m : Moment)

/-- The command succeeds: it is executed without an error and its answer arrives. -/
def Succeeds (c : Command) : Prop :=
  m.link.delivers = true ∧ (m.store.exec m.now c).2.isError = false

instance (c : Command) : Decidable (m.Succeeds c) := inferInstanceAs (Decidable (_ ∧ _))

/-- The read of the block key succeeds and finds a ban. -/
def Blocks (k : String) : Prop :=
  m.link.delivers = true ∧
    (directResult (m.store.exec m.now (.get k)).2).1.tonumber = some 1

/-- The number the counter would be counted to. -/
def counted (k : String) : ℤ :=
  match (m.store.exec m.now (.incr k)).2 with
  | .int n => n
  | _ => 0

/-- What the script gets. -/
def value (c : Command) : LuaVal := (through m.link m.now m.store c).2.1

variable {m}

/-- From a command that failed the script gets `nil` or an empty table. -/
lemma value_of_not_succeeds {c : Command} (h : ¬ m.Succeeds c) :
    m.value c = .nil ∨ m.value c = .table [] := by
  cases hdel : m.link.delivers with
  | false => exact through_value _ _ _ hdel
  | true =>
      obtain ⟨n, hup⟩ := Link.delivers_iff.mp hdel
      have herr : (m.store.exec m.now c).2.isError = true := by
        by_contra hne
        exact h ⟨hdel, by simpa using hne⟩
      left
      rw [value, hup, through_up]
      cases hr : (m.store.exec m.now c).2 <;> simp_all [Reply.isError, directResult]

/-- From a read it gets a ban exactly when the key blocks. -/
lemma value_get_iff (k : String) : (m.value (.get k)).tonumber = some 1 ↔ m.Blocks k := by
  cases hdel : m.link.delivers with
  | false =>
      rcases through_value m.now m.store (.get k) hdel with h | h <;>
        simp [value, h, Blocks, hdel]
  | true =>
      obtain ⟨n, hup⟩ := Link.delivers_iff.mp hdel
      simp [value, Blocks, hup, through_up, Link.delivers]

/-- From a count that succeeded it gets the number. -/
lemma value_incr {k : String} (h : m.Succeeds (.incr k)) :
    m.value (.incr k) = .num (m.counted k) := by
  obtain ⟨n, hup⟩ := Link.delivers_iff.mp h.1
  obtain ⟨n', hreply⟩ := Store.exec_incr_reply h.2
  rw [value, counted, hup, through_up, hreply]
  rfl

/-- From an expiry that succeeded it gets `0` or `1`. -/
lemma value_expire {k : String} {n : ℤ} (h : m.Succeeds (.expire k n)) :
    ∃ r ≤ 1, m.value (.expire k n) = .num r := by
  obtain ⟨j, hup⟩ := Link.delivers_iff.mp h.1
  obtain ⟨r, hr, hreply⟩ := @Store.exec_expire_reply m.store m.now k n
  refine ⟨r, hr, ?_⟩
  rw [value, hup, through_up, hreply]
  rfl

end Moment

/-- The command was issued successfully. -/
def Issued.Ok (x : Issued) : Prop := x.moment.Succeeds x.cmd

instance (x : Issued) : Decidable x.Ok := inferInstanceAs (Decidable (x.moment.Succeeds x.cmd))

namespace Env

variable (env : Env)

/-- Answer a call of a script, and record it. -/
def answer : (call : ScriptCall) → List Issued → call.Ans × List Issued
  | .red c, tr =>
      ((through (env tr.length).link (env tr.length).now (env tr.length).store c).2,
        ⟨c, env tr.length⟩ :: tr)
  | .readBody, tr => ((), tr)

/-- The script of a request: how it ends, and the commands it issued, the last one first. -/
def serve (req : Request) : Except Stop Unit × List Issued :=
  (localize nilEnv (Script.accessLimit req)).exec env.answer []

/-- The request gets through only if all its commands succeeded and it was counted exactly
once; else it ends with 403 or an error. -/
def FailsClosed (req : Request) : Prop :=
  ((env.serve req).1 = .ok () → (∀ x ∈ (env.serve req).2, x.Ok) ∧
    ((env.serve req).2.filter fun x => x.cmd.name = .incr).map Issued.cmd =
      [.incr req.limits.incrKey]) ∧
  ((env.serve req).1 = .ok () ∨ (env.serve req).1 = .error (.exit 403) ∨
    (env.serve req).1 = .error .luaError)

instance (req : Request) : Decidable (env.FailsClosed req) :=
  inferInstanceAs (Decidable ((_ → _) ∧ _))

/-- The condition: a ban is read, or the count fails, or the expiry of a new counter fails;
or all reads of block keys succeed and, if the limit is exceeded, all bans. -/
def Guarded (L : Limits) : Prop :=
  (∃ x ∈ L.blockKeys.zipIdx, (env x.2).Blocks x.1) ∨
  ¬ (env L.blockKeys.length).Succeeds (.incr L.incrKey) ∨
  ((env L.blockKeys.length).counted L.incrKey = 1 ∧
    ¬ (env (L.blockKeys.length + 1)).Succeeds (.expire L.incrKey 1)) ∨
  ((∀ x ∈ L.blockKeys.zipIdx, (env x.2).Succeeds (.get x.1)) ∧
    ((L.maxFreq : ℤ) < (env L.blockKeys.length).counted L.incrKey →
      ∀ x ∈ L.blockKeys.zipIdx (L.blockKeys.length + 1),
        (env x.2).Succeeds (.setEx x.1 1 banExpire)))

/-! ### The record of the commands -/

/-- Issue commands one after the other. -/
def issue : List Command → List Issued → List Issued
  | [], tr => tr
  | c :: cs, tr => issue cs (⟨c, env tr.length⟩ :: tr)

variable {env}

lemma length_issue (cs : List Command) (tr : List Issued) :
    (env.issue cs tr).length = tr.length + cs.length := by
  induction cs generalizing tr with
  | nil => rfl
  | cons c cs ih =>
      rw [issue, ih]
      simp only [List.length_cons]
      omega

/-- All commands issued are successful when those before and the new ones are. -/
lemma forall_issue_ok {cs : List Command} {tr : List Issued} :
    (∀ x ∈ env.issue cs tr, x.Ok) ↔
      (∀ x ∈ tr, x.Ok) ∧ ∀ y ∈ cs.zipIdx tr.length, (env y.2).Succeeds y.1 := by
  induction cs generalizing tr with
  | nil => simp [issue]
  | cons c cs ih =>
      rw [issue, ih, List.zipIdx_cons, List.forall_mem_cons, List.forall_mem_cons]
      simp only [List.length_cons, Issued.Ok]
      tauto

lemma forall_zipIdx_map {f : String → Command} {ks : List String} {n : ℕ} :
    (∀ y ∈ (ks.map f).zipIdx n, (env y.2).Succeeds y.1) ↔
      ∀ x ∈ ks.zipIdx n, (env x.2).Succeeds (f x.1) := by
  rw [List.zipIdx_map, List.forall_mem_map]
  rfl

/-- Only commands of one name are added. -/
lemma filter_issue {p : Issued → Bool} {cs : List Command} {tr : List Issued}
    (h : ∀ c ∈ cs, ∀ m, p ⟨c, m⟩ = false) :
    (env.issue cs tr).filter p = tr.filter p := by
  induction cs generalizing tr with
  | nil => rfl
  | cons c cs ih =>
      rw [issue, ih fun c' hc' => h c' (List.mem_cons_of_mem _ hc'), List.filter_cons,
        h c (List.mem_cons_self ..)]
      rfl

/-! ### The stages of the request -/

variable {L : Limits} {tr : List Issued}

lemma exec_call_red (env : Env) (tr : List Issued) (c : Command)
    (k : LuaVal × Option String → CommandProg) :
    ∃ err, (call (ScriptCall.red c) k : CommandProg).exec env.answer tr =
      (k ((env tr.length).value c, err)).exec env.answer (⟨c, env tr.length⟩ :: tr) :=
  ⟨_, rfl⟩

/-- Bans are issued whatever they are answered. -/
lemma exec_bans (ks : List String) : (Limits.bans ks).exec env.answer tr =
    (.ok (), env.issue (ks.map fun k => .setEx k 1 banExpire) tr) := by
  induction ks generalizing tr with
  | nil => rfl
  | cons k ks ih =>
      rw [Limits.bans]
      exact ih

/-- A check that finds a ban refuses the request. -/
lemma exec_checks_of_blocks {ks : List String}
    (h : ∃ x ∈ ks.zipIdx tr.length, (env x.2).Blocks x.1) :
    ((L.checks ks).exec env.answer tr).1 = .error (.exit 403) := by
  induction ks generalizing tr with
  | nil => simp at h
  | cons k ks ih =>
      rw [List.zipIdx_cons] at h
      obtain ⟨err, hexec⟩ := exec_call_red env tr (.get k) fun r =>
        if r.1.tonumber = some 1 then halt (.exit 403) else L.checks ks
      rw [Limits.checks, hexec]
      dsimp only
      split_ifs with hb
      · rfl
      · obtain ⟨x, hx, hblock⟩ := h
        rcases List.mem_cons.mp hx with rfl | hx
        · exact absurd ((Moment.value_get_iff k).mpr hblock) hb
        · exact ih ⟨x, hx, hblock⟩

/-- Checks that find no ban, or fail, lead to the count. -/
lemma exec_checks_of_not_blocks {ks : List String}
    (h : ¬ ∃ x ∈ ks.zipIdx tr.length, (env x.2).Blocks x.1) :
    (L.checks ks).exec env.answer tr =
      L.count.exec env.answer (env.issue (ks.map .get) tr) := by
  induction ks generalizing tr with
  | nil => rfl
  | cons k ks ih =>
      rw [List.zipIdx_cons] at h
      obtain ⟨err, hexec⟩ := exec_call_red env tr (.get k) fun r =>
        if r.1.tonumber = some 1 then halt (.exit 403) else L.checks ks
      rw [Limits.checks, hexec]
      dsimp only
      rw [if_neg fun hb => h ⟨_, List.mem_cons_self .., (Moment.value_get_iff k).mp hb⟩]
      refine ih ?_
      rintro ⟨x, hx, hblock⟩
      exact h ⟨x, List.mem_cons_of_mem _ hx, hblock⟩

/-- A count that fails ends the request with an error. -/
lemma exec_count_of_not_succeeds (h : ¬ (env tr.length).Succeeds (.incr L.incrKey)) :
    (L.count.exec env.answer tr).1 = .error .luaError := by
  obtain ⟨err, hexec⟩ := exec_call_red env tr (.incr L.incrKey) fun r =>
    if r.1.eqNum 1 then L.expire else L.judge r.1
  rw [Limits.count, hexec]
  rcases Moment.value_of_not_succeeds h with hv | hv <;>
    simp [hv, LuaVal.eqNum, Limits.judge]

/-- A count that succeeds goes on by its number. -/
lemma exec_count_of_succeeds (h : (env tr.length).Succeeds (.incr L.incrKey)) :
    L.count.exec env.answer tr =
      (if (env tr.length).counted L.incrKey = 1 then L.expire
        else L.judge (.num ((env tr.length).counted L.incrKey))).exec env.answer
          (env.issue [.incr L.incrKey] tr) := by
  obtain ⟨err, hexec⟩ := exec_call_red env tr (.incr L.incrKey) fun r =>
    if r.1.eqNum 1 then L.expire else L.judge r.1
  rw [Limits.count, hexec, Moment.value_incr h]
  simp [issue]

/-- The expiry of a new counter that fails ends the request with an error. -/
lemma exec_expire_of_not_succeeds (h : ¬ (env tr.length).Succeeds (.expire L.incrKey 1)) :
    (L.expire.exec env.answer tr).1 = .error .luaError := by
  obtain ⟨err, hexec⟩ := exec_call_red env tr (.expire L.incrKey 1) fun r =>
    L.judge r.1
  rw [Limits.expire, hexec]
  rcases Moment.value_of_not_succeeds h with hv | hv <;> simp [hv, Limits.judge]

/-- A number within the limit lets the request through. -/
lemma exec_judge_of_le {n : ℤ} (hle : n ≤ L.maxFreq) :
    (L.judge (.num n)).exec env.answer tr = (.ok (), tr) := by
  have hlt : ¬ (L.maxFreq : ℤ) < n := by omega
  simp [Limits.judge, hlt]

/-- A number over it does so too, after the bans. -/
lemma exec_judge_of_lt {n : ℤ} (hlt : (L.maxFreq : ℤ) < n) :
    (L.judge (.num n)).exec env.answer tr =
      (.ok (), env.issue (L.blockKeys.map fun k => .setEx k 1 banExpire) tr) := by
  simp only [Limits.judge, LuaVal.gtNum_num, decide_eq_true hlt]
  exact exec_bans L.blockKeys

lemma exec_expire_of_succeeds (hmax : 1 ≤ L.maxFreq)
    (h : (env tr.length).Succeeds (.expire L.incrKey 1)) :
    L.expire.exec env.answer tr = (.ok (), env.issue [.expire L.incrKey 1] tr) := by
  obtain ⟨err, hexec⟩ := exec_call_red env tr (.expire L.incrKey 1) fun r =>
    L.judge r.1
  obtain ⟨r, hr, hv⟩ := Moment.value_expire h
  rw [Limits.expire, hexec, hv]
  exact exec_judge_of_le (by omega)

/-- A request that got through after the reads, the count and some commands that are no
counts. -/
lemma failsClosed_of_passed {req : Request} {cs : List Command}
    (hserve : env.serve req = (.ok (), env.issue cs (env.issue [.incr req.limits.incrKey]
      (env.issue (req.limits.blockKeys.map .get) []))))
    (hcs : ∀ c ∈ cs, c.name ≠ .incr)
    (hincr : (env req.limits.blockKeys.length).Succeeds (.incr req.limits.incrKey)) :
    env.FailsClosed req ↔
      (∀ x ∈ req.limits.blockKeys.zipIdx, (env x.2).Succeeds (.get x.1)) ∧
        ∀ y ∈ cs.zipIdx (req.limits.blockKeys.length + 1), (env y.2).Succeeds y.1 := by
  have hfilter : ((env.serve req).2.filter fun x => x.cmd.name = .incr).map Issued.cmd =
      [.incr req.limits.incrKey] := by
    rw [hserve]
    dsimp only
    rw [filter_issue fun c hc _ => by simpa using hcs c hc, issue, issue,
      List.filter_cons_of_pos (by rfl), filter_issue (by simp [Command.get])]
    rfl
  have hok : (∀ x ∈ (env.serve req).2, x.Ok) ↔
      (∀ x ∈ req.limits.blockKeys.zipIdx, (env x.2).Succeeds (.get x.1)) ∧
        ∀ y ∈ cs.zipIdx (req.limits.blockKeys.length + 1), (env y.2).Succeeds y.1 := by
    rw [hserve]
    simp only [forall_issue_ok, length_issue, List.length_map, List.length_nil, Nat.zero_add,
      List.length_singleton, forall_zipIdx_map]
    simp [hincr]
  rw [FailsClosed, hok]
  simp only [hserve] at hfilter ⊢
  simp [hfilter]

/-- A request that did not get through fails closed. -/
lemma failsClosed_of_stopped {req : Request} {w : Stop} (hserve : (env.serve req).1 = .error w)
    (hw : w = .exit 403 ∨ w = .luaError) : env.FailsClosed req := by
  rw [FailsClosed, hserve]
  rcases hw with rfl | rfl <;> simp

end Env

/-- The limiter fails closed exactly where it is guarded: unless a ban is read, or the count or
the expiry of a new counter fails, it depends on all reads of block keys succeeding and, when
the limit is exceeded, on all bans. -/
theorem failsClosed_iff (req : Request) (env : Env) :
    env.FailsClosed req ↔ env.Guarded req.limits := by
  have hmax := req.one_le_maxFreq
  have hserve : env.serve req =
      (req.limits.checks req.limits.blockKeys).exec env.answer [] := by
    rw [Env.serve, Script.localize_accessLimit]
  by_cases hblock : ∃ x ∈ req.limits.blockKeys.zipIdx, (env x.2).Blocks x.1
  · refine iff_of_true (Env.failsClosed_of_stopped ?_ (Or.inl rfl)) (Or.inl hblock)
    rw [hserve]
    exact Env.exec_checks_of_blocks hblock
  rw [Env.exec_checks_of_not_blocks hblock] at hserve
  have hlen : (env.issue (req.limits.blockKeys.map .get) []).length =
      req.limits.blockKeys.length := by simp [Env.length_issue]
  by_cases hincr : (env req.limits.blockKeys.length).Succeeds (.incr req.limits.incrKey)
  case neg =>
    refine iff_of_true (Env.failsClosed_of_stopped ?_ (Or.inr rfl)) (Or.inr (Or.inl hincr))
    rw [hserve]
    exact Env.exec_count_of_not_succeeds (by rwa [hlen])
  rw [Env.exec_count_of_succeeds (by rwa [hlen]), hlen] at hserve
  have hlen' : (env.issue [.incr req.limits.incrKey]
      (env.issue (req.limits.blockKeys.map .get) [])).length =
        req.limits.blockKeys.length + 1 := by simp [Env.length_issue]
  by_cases hone : (env req.limits.blockKeys.length).counted req.limits.incrKey = 1
  · rw [if_pos hone] at hserve
    by_cases hexp : (env (req.limits.blockKeys.length + 1)).Succeeds
        (.expire req.limits.incrKey 1)
    · rw [Env.exec_expire_of_succeeds hmax (by rwa [hlen'])] at hserve
      rw [Env.failsClosed_of_passed hserve (by simp [Command.expire]) hincr]
      have hnot : ¬ (req.limits.maxFreq : ℤ) < 1 := by omega
      simp [Env.Guarded, hblock, hincr, hone, hexp, hnot]
    · refine iff_of_true (Env.failsClosed_of_stopped ?_ (Or.inr rfl))
        (Or.inr (Or.inr (Or.inl ⟨hone, hexp⟩)))
      rw [hserve]
      exact Env.exec_expire_of_not_succeeds (by rwa [hlen'])
  · rw [if_neg hone] at hserve
    by_cases hlt : (req.limits.maxFreq : ℤ) <
        (env req.limits.blockKeys.length).counted req.limits.incrKey
    · rw [Env.exec_judge_of_lt hlt] at hserve
      rw [Env.failsClosed_of_passed hserve (by simp [Command.setEx]) hincr,
        Env.forall_zipIdx_map]
      simp [Env.Guarded, hblock, hincr, hone, hlt]
    · rw [Env.exec_judge_of_le (not_lt.mp hlt)] at hserve
      rw [@Env.failsClosed_of_passed env req [] hserve (by simp) hincr]
      simp [Env.Guarded, hblock, hincr, hone, hlt]

/-- A banned client gets through, and is counted, when the connection for the read of its ban
fails. -/
theorem banned_client_passes :
    (Env.serve (fun n => match n with
      | 0 => ⟨.connectFails, 0, TimedStore.empty.put "userIp:a:block" ⟨.int 1, some 600⟩⟩
      | 1 => ⟨.up 0, 0, TimedStore.empty.put "userIp:a:block" ⟨.int 1, some 600⟩⟩
      | _ => ⟨.up 1, 0, (TimedStore.empty.put "userIp:a:block" ⟨.int 1, some 600⟩).put
          "user:a:freq" ⟨.int 1, none⟩⟩) { remoteAddr := "a" }).1 = .ok () ∧
    ¬ Env.FailsClosed (fun n => match n with
      | 0 => ⟨.connectFails, 0, TimedStore.empty.put "userIp:a:block" ⟨.int 1, some 600⟩⟩
      | 1 => ⟨.up 0, 0, TimedStore.empty.put "userIp:a:block" ⟨.int 1, some 600⟩⟩
      | _ => ⟨.up 1, 0, (TimedStore.empty.put "userIp:a:block" ⟨.int 1, some 600⟩).put
          "user:a:freq" ⟨.int 1, none⟩⟩) { remoteAddr := "a" } := by
  decide +kernel

end AllInDocker
