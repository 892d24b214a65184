import AllInDocker.Wrapper.Pipeline

/-!
The replies of a committed pipeline against the replies of the same commands issued directly.

`commit_pipeline` turns nulls into `nil` twice: once for the whole table, when all its
entries are null, and once for each entry while `ipairs` walks the table. The entries the
client hands over are never `nil` (`entry_ne_nil`), so the walk reaches all of them
(`sweep_eq_map`), and both ways to `nil` agree at every index (`committed_getElem`).

* `sessionResults_direct` and `sessionResults_pipelined`: what the calls return, by the
  replies of the server.
* `pipelined_replies_eq_direct`: index by index, the table of the pipeline holds the first
  value of the direct call; an error `e` appears as `{false, e}`.
-/

namespace AllInDocker

variable {σ κ : Type}

/-! ### The table of results -/

lemma entry_ne_nil (r : Reply) : r.entry ≠ .nil := by
  cases r <;> simp [Reply.entry]

/-- A null becomes `nil`, everything else stays. -/
def nilify (v : LuaVal) : LuaVal := if isRedisNull v then .nil else v

/-- On a table without `nil` the loop reaches every entry. -/
lemma sweep_eq_map {vs : List LuaVal} (h : ∀ v ∈ vs, v ≠ .nil) :
    Wrapper.sweep vs = vs.map nilify := by
  induction vs with
  | nil => rfl
  | cons v vs ih =>
      have hv : v ≠ .nil := h v (by simp)
      have hvs := ih fun u hu => h u (by simp [hu])
      cases v with
      | nil => exact absurd rfl hv
      | _ => simp only [Wrapper.sweep, List.map_cons, nilify, hvs]

/-- A table of replies all of which are null consists of nulls. -/
lemma isRedisNull_of_mem {vs : List LuaVal} (h : isRedisNull (.table vs)) {v : LuaVal}
    (hv : v ∈ vs) : isRedisNull v := by
  have hall := List.all_eq_true.mp h v hv
  cases v <;> simp_all [isRedisNull]

/-- Both ways to `nil` agree at every index. -/
lemma committed_getElem {vs : List LuaVal} (h : ∀ v ∈ vs, v ≠ .nil) {i : ℕ} {v : LuaVal}
    (hi : vs[i]? = some v) : (committed vs)[i]?.getD .nil = nilify v := by
  by_cases hnull : isRedisNull (.table vs)
  · have hv := isRedisNull_of_mem hnull (List.mem_of_getElem? hi)
    simp [committed, hnull, Wrapper.sweep, nilify, hv]
  · simp [committed, hnull, sweep_eq_map h, hi]

/-- An entry that is not null is kept, so the table is not replaced. -/
lemma committed_getElem_of_not_null {vs : List LuaVal} (h : ∀ v ∈ vs, v ≠ .nil) {i : ℕ}
    {v : LuaVal} (hi : vs[i]? = some v) (hv : isRedisNull v = false) :
    (committed vs)[i]? = some v := by
  have hnull : ¬ isRedisNull (.table vs) := by
    intro hall
    rw [isRedisNull_of_mem hall (List.mem_of_getElem? hi)] at hv
    exact absurd hv (by simp)
  simp [committed, hnull, sweep_eq_map h, hi, nilify, hv]

/-! ### What the calls return -/

lemma runAll_length (srv : Server σ κ) (s : σ) (cs : List κ) :
    (srv.runAll s cs).2.length = cs.length := by
  induction cs generalizing s with
  | nil => rfl
  | cons c cs ih => simp [Server.runAll, ih]

section Results

variable (srv : Server σ κ) (reused : World σ κ → ℕ)

lemma callStep_command_direct {self : Wrapper κ} (hself : self.reqs = none) (w : World σ κ)
    (c : κ) : callStep srv reused (self, w) (.command c) =
      ((self, ⟨(srv w.state c).1, w.executed ++ [c], []⟩), directResult (srv w.state c).2) := by
  rw [callStep, invoke, exec_doCommand_direct srv reused hself]

lemma callStep_command_deferred {self : Wrapper κ} {q : List κ} (hself : self.reqs = some q)
    (w : World σ κ) (c : κ) : callStep srv reused (self, w) (.command c) =
      (({ self with reqs := some (q ++ [c]) }, w), .nil, none) := by
  rw [callStep, invoke, exec_doCommand_deferred srv reused hself]

/-- Issued directly, each command returns what its own reply gives. -/
lemma sessionResults_direct {self : Wrapper κ} (hself : self.reqs = none) (w : World σ κ)
    (cs : List κ) : sessionResults srv reused (self, w) (cs.map .command) =
      (srv.runAll w.state cs).2.map directResult := by
  induction cs generalizing w with
  | nil => rfl
  | cons c cs ih =>
      rw [List.map_cons, sessionResults, callStep_command_direct srv reused hself, ih]
      rfl

/-- Queued, a command returns nothing. -/
lemma sessionResults_deferred {self : Wrapper κ} {q : List κ} (hself : self.reqs = some q)
    (w : World σ κ) (cs : List κ) (calls : List (Call κ)) :
    sessionResults srv reused (self, w) (cs.map .command ++ calls) =
      List.replicate cs.length (.nil, none) ++
        sessionResults srv reused ({ self with reqs := some (q ++ cs) }, w) calls := by
  induction cs generalizing self q with
  | nil => simp [← hself]
  | cons c cs ih =>
      rw [List.map_cons, List.cons_append, sessionResults,
        callStep_command_deferred srv reused hself]
      have hrest := @ih { self with reqs := some (q ++ [c]) } (q ++ [c]) rfl
      simp only [hrest, List.length_cons, List.replicate_succ, List.cons_append,
        List.append_assoc, List.nil_append]

/-- The last value of a committed pipeline is the table of its results. -/
lemma sessionResults_pipelined (self : Wrapper κ) (w : World σ κ) {cs : List κ}
    (hcs : cs ≠ []) :
    (sessionResults srv reused (self, w)
        (.initPipeline :: cs.map .command ++ [.commitPipeline])).getLast? =
      some (.table (committed ((srv.runAll w.state cs).2.map Reply.entry)), none) := by
  obtain ⟨c, cs, rfl⟩ := List.exists_cons_of_ne_nil hcs
  rw [List.cons_append, sessionResults,
    sessionResults_deferred srv reused (q := []) rfl, List.nil_append]
  simp only [sessionResults, callStep, invoke, Wrapper.initPipeline]
  rw [exec_commitPipeline srv reused rfl, ← List.cons_append, List.getLast?_concat]

/-- **Pipelined replies agree with direct ones.** For every server and every nonempty list
of commands, the pipeline returns one table, whose entry at each index is the first value
the direct call of that command returns, except that an error `e` is the entry `{false, e}`
where the direct call returns `nil, e`. -/
theorem pipelined_replies_eq_direct (opts : Options) (s : σ) (cs : List κ) (hcs : cs ≠ []) :
    ∃ tbl, (sessionResults srv reused (Wrapper.new opts, ⟨s, [], []⟩)
          (.initPipeline :: cs.map .command ++ [.commitPipeline])).getLast? =
        some (.table tbl, none) ∧
      ∀ i < cs.length, ∃ r direct,
        (srv.runAll s cs).2[i]? = some r ∧
        (sessionResults srv reused (Wrapper.new opts, ⟨s, [], []⟩)
          (cs.map .command))[i]? = some direct ∧
        (r.isError = false → tbl[i]?.getD .nil = direct.1) ∧
        ∀ e, r = .error e →
          tbl[i]? = some (.table [.bool false, .str e]) ∧ direct = (.nil, some e) := by
  refine ⟨_, sessionResults_pipelined srv reused _ _ hcs, fun i hi => ?_⟩
  obtain ⟨r, hr⟩ : ∃ r, (srv.runAll s cs).2[i]? = some r := by
    rw [← runAll_length srv s cs] at hi
    exact ⟨_, List.getElem?_eq_getElem hi⟩
  have hentry : ((srv.runAll s cs).2.map Reply.entry)[i]? = some r.entry := by
    rw [List.getElem?_map, hr, Option.map_some]
  have hne : ∀ v ∈ (srv.runAll s cs).2.map Reply.entry, v ≠ .nil := by
    intro v hv
    obtain ⟨r', -, rfl⟩ := List.mem_map.mp hv
    exact entry_ne_nil r'
  refine ⟨r, directResult r, hr, ?_, fun he => ?_, ?_⟩
  · rw [sessionResults_direct srv reused rfl, List.getElem?_map, hr, Option.map_some]
  · rw [committed_getElem hne hentry, directResult_of_not_error he, nilify]
  · rintro e rfl
    exact ⟨committed_getElem_of_not_null hne hentry rfl, rfl⟩

end Results

/-- A server with a null, an empty array and an error among its replies. -/
theorem pipelined_replies_of_three :
    ∃ tbl, (sessionResults (σ := ℕ)
          (fun n _ => (n + 1, if n = 0 then .null else if n = 1 then .array [] else .error "ERR"))
          (fun _ => 0) (Wrapper.new {}, ⟨0, [], []⟩)
          (.initPipeline :: [Command.get "a", .get "b", .get "c"].map .command
            ++ [.commitPipeline])).getLast? = some (.table tbl, none) ∧
      tbl[2]? = some (.table [.bool false, .str "ERR"]) := by
  obtain ⟨tbl, hlast, hall⟩ := pipelined_replies_eq_direct (σ := ℕ)
    (fun n _ => (n + 1, if n = 0 then .null else if n = 1 then .array [] else .error "ERR"))
    (fun _ => 0) {} 0 [Command.get "a", .get "b", .get "c"] (by simp)
  obtain ⟨r, direct, hr, -, -, herr⟩ := hall 2 (by simp)
  obtain rfl : Reply.error "ERR" = r := by simpa [Server.runAll] using hr
  exact ⟨tbl, hlast, (herr "ERR" rfl).1⟩

end AllInDocker
