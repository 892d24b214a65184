import AllInDocker.Wrapper.Answers.Steps

/-!
Every call on the pool gets its own answer.

A caller takes whatever comes first over its connection for its answer, so a message or a reply
that somebody left unread would be taken for it. `own_answer`: with ordinary commands this
never happens, in any interleaving of direct commands, pipelines, subscriptions and
publications and with any failures. A direct command and a pipeline return what `redis.lua`
makes of the server's replies to these very commands, and `subscribe` returns the first message
that was published after it had subscribed.

* `Sound` is the invariant: every caller keeps to the protocol from a stage that is true of its
  connection, and no idle connection has anything unread. `sound_run`: it holds in every run of
  ordinary calls.
* `monitor_crosses`: after a `MONITOR` it happens.
-/

namespace AllInDocker

open Coro

/-! ### Every run -/

/-- Where a caller stands, by what is left of its call. -/
def Placed {α : Type} (w : Network) (i : ℕ) (d : ClientObject) (k : CallStage) : SubProg α → Prop
  | .call op _ => Stands w i d k op
  | _ => k.Holds w i d

lemma Placed.follows {α : Type} {w w' : Network} {i : ℕ} {d : ClientObject} {k : CallStage}
    {p : SubProg α} {new : String → List String} (h : Placed w i d k p) (hf : Follows i new w w') :
    Placed w' i d k p := by
  cases p with
  | ret a => exact CallStage.Holds.follows h hf
  | halt s => exact CallStage.Holds.follows h hf
  | call op f => exact Stands.follows h hf

lemma placed_of_holds {α : Type} {w : Network} {i : ℕ} {d : ClientObject} {k : CallStage}
    (p : SubProg α) (hw : d.waiting = false) (h : k.Holds w i d) : Placed w i d k p := by
  cases p with
  | ret a => exact h
  | halt s => exact h
  | call op f => exact Or.inl ⟨hw, h⟩

namespace Traffic

/-- A caller keeps to the protocol from a stage that is true of its connection. -/
def Keeps (w : Network) (i : ℕ) (c : WireCaller) : Prop :=
  ∃ k, Obeys answering (Ends c.job) k c.prog ∧ Placed w i c.object k c.prog

/-- The invariant: the connections are tidy, and every caller keeps to the protocol. -/
structure Sound (σ : Traffic) : Prop where
  tidy : σ.network.Tidy
  caller : ∀ (i : ℕ) (c : WireCaller), σ.callers[i]? = some c → Keeps σ.network i c

variable {σ : Traffic}

lemma Sound.publish (h : Sound σ) (channel payload : String) :
    Sound { σ with network := σ.network.publish channel payload } where
  tidy := tidy_publish h.tidy channel payload
  caller := by
    intro i c hc
    obtain ⟨k, hobeys, hplaced⟩ := h.caller i c hc
    exact ⟨k, hobeys, hplaced.follows (follows_publish i σ.network channel payload)⟩

lemma Sound.call (h : Sound σ) (opts : Options) {job : WireCall} (hjob : job.Ordinary) :
    Sound (σ.step (.call opts job)) := by
  refine ⟨h.tidy, fun i c hc => ?_⟩
  simp only [Traffic.step, List.getElem?_append] at hc
  split_ifs at hc with hlt
  · exact h.caller i c hc
  · obtain rfl := List.mem_singleton.mp (List.mem_of_getElem? hc)
    exact ⟨.free .nothing, hjob.obeys opts, placed_of_holds _ rfl ⟨trivial, Or.inl rfl⟩⟩

lemma Sound.perform (h : Sound σ) (i : ℕ) (ch : Choices) : Sound (σ.step (.step i ch)) := by
  simp only [Traffic.step]
  split
  · rename_i job d op f hi
    obtain ⟨k, hobeys, hplaced⟩ := h.caller i _ hi
    obtain ⟨w₁, ps, heq, hmoved, harrives⟩ := leads_perform ch h.tidy hplaced hobeys.1
    rw [heq]
    -- the callers stand right before the publications, which leave them standing
    refine Network.publishAll_induction (C := fun w => Sound ⟨w, _⟩)
      (fun w channel payload hw => hw.publish channel payload) ⟨hmoved.tidy h.tidy, ?_⟩ ps
    intro j c hj
    simp only [List.getElem?_set] at hj
    split_ifs at hj with hij hlt
    · obtain rfl := Option.some.inj hj
      subst hij
      cases ha : (ClientObject.perform ch i op (d, σ.network)).1 with
      | some a =>
          rw [ha] at harrives
          exact ⟨_, hobeys.2 a, placed_of_holds (f a) harrives.1 harrives.2⟩
      | none =>
          rw [ha] at harrives
          exact ⟨k, hobeys, harrives⟩
    · obtain ⟨k', hobeys', hplaced'⟩ := h.caller j c hj
      exact ⟨k', hobeys', hplaced'.follows (hmoved.follows (Ne.symm hij))⟩
  · exact h

/-- A change to connections that nobody holds. -/
lemma Sound.connections (h : Sound σ) {connections : List Connection}
    (htidy : Network.Tidy { σ.network with connections := connections })
    (hheld : ∀ (n : ℕ) (l : Connection) (i : ℕ), σ.network.connections[n]? = some l →
      l.place = .held i → connections[n]? = some l) :
    Sound { σ with network := { σ.network with connections := connections } } where
  tidy := htidy
  caller := by
    intro i c hc
    obtain ⟨k, hobeys, hplaced⟩ := h.caller i c hc
    have hfollows : Follows i (fun _ => []) σ.network
        { σ.network with connections := connections } := by
      refine ⟨fun _ he => he, fun channel ms hms => ?_, fun n l hl hplace => ?_⟩
      · rwa [List.append_nil]
      · exact ⟨l, hheld n l i hl hplace, hplace, fun _ hu => hu,
          fun channel u hu => by simpa using hu⟩
    exact ⟨k, hobeys, hplaced.follows hfollows⟩

lemma Sound.send (h : Sound σ) (n : ℕ) (rs : List Reply) : Sound (σ.step (.send n rs)) := by
  have hsame : (σ.network.connections.modify n fun l =>
      if l.odd then { l with unread := l.unread ++ rs } else l) = σ.network.connections := by
    refine List.ext_getElem? fun m => ?_
    rw [List.getElem?_modify]
    cases hm : σ.network.connections[m]? with
    | none => simp
    | some l => simp [(h.tidy m l hm).1]
  rw [Traffic.step, hsame]
  exact h

lemma Sound.drop (h : Sound σ) (n : ℕ) : Sound (σ.step (.drop n)) := by
  have hget : ∀ (m : ℕ), (σ.network.connections.modify n fun l =>
      if l.place = .idle then { l with place := .closed } else l)[m]? =
      σ.network.connections[m]?.map fun l =>
        if n = m ∧ l.place = .idle then { l with place := .closed } else l := by
    intro m
    rw [List.getElem?_modify]
    cases σ.network.connections[m]? with
    | none => rfl
    | some l => by_cases hnm : n = m <;> simp [hnm]
  refine h.connections (fun m l hl => ?_) fun m l i hl hplace => ?_
  · rw [hget, Option.map_eq_some_iff] at hl
    obtain ⟨l₀, hl₀, rfl⟩ := hl
    split_ifs
    · exact ⟨(h.tidy m l₀ hl₀).1, by simp⟩
    · exact h.tidy m l₀ hl₀
  · rw [hget, hl]
    simp [hplace]

/-- The invariant holds in every run of ordinary calls. -/
lemma sound_run {acts : List TrafficAct}
    (hcalls : ∀ opts job, .call opts job ∈ acts → job.Ordinary) : Sound (run acts) := by
  induction acts using List.reverseRecOn with
  | nil => exact ⟨by simp [Network.Tidy, run, init], by simp [run, init]⟩
  | append_singleton acts a ih =>
      have hprev := ih fun opts job hjob => hcalls opts job (List.mem_append_left _ hjob)
      rw [run, List.foldl_append]
      cases a with
      | call opts job => exact hprev.call opts (hcalls opts job (by simp))
      | step i ch => exact hprev.perform i ch
      | publish channel payload => exact hprev.publish channel payload
      | send n rs => exact hprev.send n rs
      | drop n => exact hprev.drop n

end Traffic

/-- What a caller knows at its end is what it should return. -/
lemma answered_of_ends {w : Network} {i : ℕ} {d : ClientObject} {k : CallStage} {job : WireCall}
    {v : LuaVal}
    (hends : Ends job k (v, none)) (hholds : k.Holds w i d) : Answered w.log i job v := by
  have hfailed : ¬ (CallStage.free (.failed none)).Holds w i d := fun h =>
    absurd h.1 (by simp [Known.Valid])
  cases job with
  | direct c =>
      rcases hends rfl with rfl | ⟨u, rfl, hv⟩
      · exact absurd hholds hfailed
      · obtain ⟨⟨r, hr, hu⟩, -⟩ := hholds
        refine ⟨r, hr, ?_⟩
        have hfalse : u.isFalse = false := by
          by_contra h
          have hsome := isSome_of_isFalse (r := r) (by rw [hu]; simpa using h)
          rw [hu] at hsome
          exact absurd hsome (by simp)
        rw [directResult_eq, hu]
        simpa [hfalse] using hv.symm
  | pipeline cs =>
      rcases hends rfl with rfl | ⟨vs, rfl, hv⟩
      · exact absurd hholds hfailed
      · obtain ⟨⟨rs, hrs, hlen, rfl⟩, -⟩ := hholds
        exact ⟨rs, hrs, hlen, hv⟩
  | subscribe channel =>
      rcases hends rfl with rfl | rfl
      · exact absurd hholds hfailed
      · obtain ⟨⟨m, ms, hm, hv⟩, -⟩ := hholds
        exact ⟨m, ms, hm, hv⟩

/-- **Every call gets its own answer**: in every run of ordinary calls, in any interleaving and
with any publications and failures, a call that returns a value returns the one it should, and
no idle connection is subscribed to a channel or has anything unread. -/
theorem own_answer (acts : List TrafficAct)
    (hcalls : ∀ opts job, .call opts job ∈ acts → job.Ordinary) :
    (∀ (i : ℕ) (c : WireCaller) (v : LuaVal), (Traffic.run acts).callers[i]? = some c →
      c.prog = .ret (v, none) → Answered (Traffic.run acts).network.log i c.job v) ∧
    ∀ l ∈ (Traffic.run acts).network.connections, l.place = .idle →
      l.subs = [] ∧ l.unread = [] := by
  have hsound := Traffic.sound_run hcalls
  constructor
  · intro i c v hc hv
    obtain ⟨k, hobeys, hplaced⟩ := hsound.caller i c hc
    rw [hv] at hobeys hplaced
    exact answered_of_ends hobeys hplaced
  · intro l hl hidle
    obtain ⟨n, hn⟩ := List.mem_iff_getElem?.mp hl
    exact (hsound.tidy n l hn).2 hidle

/-- Nothing fails, and the server answers `OK`. -/
def calm (take : Option ℕ) : Choices := ⟨false, take, fun _ => .str "OK", true, [], []⟩

/-- Steps of one caller without a failure. -/
def calmSteps (i n : ℕ) (take : Option ℕ) : List TrafficAct :=
  List.replicate n (.step i (calm take))

/-- A caller waits for a message, which comes, and another one takes over its connection. -/
def newsThenGet : List TrafficAct :=
  .call {} (.subscribe "news") :: calmSteps 0 8 none ++ .publish "news" "a" ::
    calmSteps 0 4 none ++ .call {} (.direct (.get "k")) :: calmSteps 1 2 none ++
    calmSteps 1 5 (some 1)

theorem own_answer_of_news :
    Answered (Traffic.run newsThenGet).network.log 0 (.subscribe "news")
      (.table [.str "message", .str "news", .str "a"]) ∧
    Answered (Traffic.run newsThenGet).network.log 1 (.direct (.get "k")) (.str "OK") := by
  have hanswer := (own_answer newsThenGet fun opts job hjob => by
    simp only [newsThenGet, calmSteps, List.replicate, List.cons_append, List.nil_append,
      List.mem_cons, reduceCtorEq, TrafficAct.call.injEq, List.not_mem_nil, or_false,
      false_or] at hjob
    rcases hjob with ⟨-, rfl⟩ | ⟨-, rfl⟩ <;> trivial).1
  exact ⟨hanswer 0 ⟨.subscribe "news", _, _⟩ _ rfl rfl,
    hanswer 1 ⟨.direct (.get "k"), _, _⟩ _ rfl rfl⟩

/-- A caller turns its connection into that of a monitor and gives it back; the next one gets
what the monitor is sent. -/
def monitorThenGet : List TrafficAct :=
  .call {} (.direct ⟨.monitor, []⟩) :: calmSteps 0 6 none ++
    .step 0 { calm none with sends := [.str "OK"] } :: calmSteps 0 2 none ++
    .send 1 [.str "\"get\" \"x\""] :: .call {} (.direct (.get "k")) :: calmSteps 1 2 none ++
    calmSteps 1 5 (some 1)

/-- It takes that for its answer. -/
theorem monitor_crosses : ∃ c v, (Traffic.run monitorThenGet).callers[1]? = some c ∧
    c.job = .direct (.get "k") ∧ c.prog = .ret (v, none) ∧
      ¬ Answered (Traffic.run monitorThenGet).network.log 1 c.job v := by
  refine ⟨⟨.direct (.get "k"), _, _⟩, .str "\"get\" \"x\"", rfl, rfl, rfl, ?_⟩
  have hlog : (Traffic.run monitorThenGet).network.log = [.executed 1 [.get "k"] [.str "OK"],
      .executed 0 [⟨.monitor, []⟩] [.str "OK"],
      .executed 0 [⟨.auth, [.str "password"]⟩] [.str "OK"]] := rfl
  rintro ⟨r, hr, hv⟩
  rw [hlog] at hr
  obtain rfl : r = .str "OK" := by simpa using hr
  simp [directResult, Reply.entry, isRedisNull] at hv

end AllInDocker
