import AllInDocker.Wrapper.Answers.Protocol

/-!
What a caller knows is true: between two operations (`Holds`) and while a reply is under way
(`Mid`). It stays true through what others do (`Follows`), and `Moved` is what a step of a caller
leaves of the connections of the others. `leads_exchange` is the step of an operation that sends
and waits.
-/

namespace AllInDocker

open Coro

/-! ### What is known is true -/

/-- The channels of a connection, and what is unread on it. -/
def Connection.Has (l : Connection) (subs : List String) (unread : List Reply) : Prop :=
  l.subs = subs ∧ l.unread = unread

/-- The caller holds a connection with the given property. -/
def ClientObject.Owns (d : ClientObject) (w : Network) (i : ℕ) (p : Connection → Prop) : Prop :=
  ∃ n l, d.connection = some n ∧ w.connections[n]? = some l ∧ l.place = .held i ∧ p l

/-- What caller `i` knows of its result is true. -/
def Known.Valid (log : List Served) (i : ℕ) : Known → Prop
  | nothing => True
  | failed err => err.isSome
  | reply c v => ∃ r, .executed i [c] [r] ∈ log ∧ r.result = (v, none)
  | replies cs vs => ∃ rs, .executed i cs rs ∈ log ∧ rs.length = cs.length ∧
      vs = rs.map Reply.entry
  | first channel v => ∃ m ms, heard i channel log = some (m :: ms) ∧
      v = (message channel m).entry

/-- After `rest`, there is on the connection what the caller has heard, or nothing if the server
has not accepted its subscription. -/
def Tuned (log : List Served) (i : ℕ) (channel : String) (rest : List Reply) (l : Connection) :
    Prop :=
  (∃ ms, heard i channel log = some ms ∧ l.Has [channel] (rest ++ ms.map (message channel))) ∨
    l.Has [] rest

/-- What a caller knows between two operations is true. -/
def CallStage.Holds (w : Network) (i : ℕ) (d : ClientObject) : CallStage → Prop
  | free a => a.Valid w.log i ∧ (d.connection = none ∨ d.Owns w i fun _ => True)
  | clean a => a.Valid w.log i ∧ d.marked = false ∧ d.Owns w i (·.Has [] [])
  | piping cs => d.piped = cs ∧ d.marked = false ∧ d.Owns w i (·.Has [] [])
  | listening channel => d.marked = true ∧ d.Owns w i (Tuned w.log i channel [])
  | first channel v => d.marked = true ∧ ∃ m ms, heard i channel w.log = some (m :: ms) ∧
      v = (message channel m).entry ∧ d.Owns w i (·.Has [channel] (ms.map (message channel)))
  | leaving channel v => (Known.first channel v).Valid w.log i ∧
      d.Owns w i fun l => d.marked = false → l.Has [] []

/-- What is true while an operation waits for its reply. -/
def CallStage.Mid (w : Network) (i : ℕ) (d : ClientObject) (k : CallStage) : SubOp → Prop
  | .net (.auth _) => d.marked = false ∧ ∃ r, d.Owns w i (·.Has [] [r])
  | .net (.command c) => d.marked = false ∧ ∃ r, .executed i [c] [r] ∈ w.log ∧
      d.Owns w i (·.Has [] [r])
  | .net .commitPipeline => d.marked = false ∧ k = .piping d.piped ∧ ∃ rs,
      rs.length = d.piped.length ∧ .executed i d.piped rs ∈ w.log ∧ d.Owns w i (·.Has [] rs)
  | .subscribe channel => d.marked = true ∧ ∃ r, d.Owns w i (Tuned w.log i channel [r])
  | .unsubscribe channel => d.marked = true ∧ ∃ v, ∃ ms : List String, k = .first channel v ∧
      (Known.first channel v).Valid w.log i ∧
        d.Owns w i (·.Has [] (ms.map (message channel) ++ [unsubscribed channel 0]))
  | _ => False

/-- Where a caller stands, before or within the operation `op`. -/
def Stands (w : Network) (i : ℕ) (d : ClientObject) (k : CallStage) (op : SubOp) : Prop :=
  (d.waiting = false ∧ k.Holds w i d) ∨ (d.waiting = true ∧ k.Mid w i d op)

/-- No connection is odd, and nothing is on an idle one. -/
def Network.Tidy (w : Network) : Prop :=
  ∀ (n : ℕ) (l : Connection), w.connections[n]? = some l →
    l.odd = false ∧ (l.place = .idle → l.Has [] [])

/-! ### What others do -/

/-- What caller `i` can see when others have been at work: no connection of its own has changed
but by the messages `new` of the channel it is subscribed to, which it has heard. -/
structure Follows (i : ℕ) (new : String → List String) (w w' : Network) : Prop where
  log : ∀ e ∈ w.log, e ∈ w'.log
  heard : ∀ channel ms, heard i channel w.log = some ms →
    heard i channel w'.log = some (ms ++ new channel)
  connections : ∀ (n : ℕ) (l : Connection), w.connections[n]? = some l → l.place = .held i →
    ∃ l', w'.connections[n]? = some l' ∧ l'.place = .held i ∧ (∀ u, l.Has [] u → l'.Has [] u) ∧
      ∀ channel u, l.Has [channel] u → l'.Has [channel] (u ++ (new channel).map (message channel))

section Follows

variable {i : ℕ} {new : String → List String} {w w' : Network} {d : ClientObject} {k : CallStage}

lemma Known.Valid.follows {a : Known} (h : a.Valid w.log i) (hf : Follows i new w w') :
    a.Valid w'.log i := by
  cases a with
  | nothing => trivial
  | failed err => exact h
  | reply c v =>
      obtain ⟨r, hr, hv⟩ := h
      exact ⟨r, hf.log _ hr, hv⟩
  | replies cs vs =>
      obtain ⟨rs, hrs, hv⟩ := h
      exact ⟨rs, hf.log _ hrs, hv⟩
  | first channel v =>
      obtain ⟨m, ms, hm, hv⟩ := h
      exact ⟨m, ms ++ new channel, hf.heard channel _ hm, hv⟩

/-- A property of the connection, as the others leave it. -/
lemma ClientObject.Owns.follows {p q : Connection → Prop} (h : d.Owns w i p)
    (hf : Follows i new w w')
    (hpq : ∀ l l' : Connection, (∀ u, l.Has [] u → l'.Has [] u) →
      (∀ channel u, l.Has [channel] u →
        l'.Has [channel] (u ++ (new channel).map (message channel))) → p l → q l') :
    d.Owns w' i q := by
  obtain ⟨n, l, hn, hl, hplace, hp⟩ := h
  obtain ⟨l', hl', hplace', hnone, hone⟩ := hf.connections n l hl hplace
  exact ⟨n, l', hn, hl', hplace', hpq l l' hnone hone hp⟩

lemma ClientObject.Owns.follows_none {u : List Reply} (h : d.Owns w i (·.Has [] u))
    (hf : Follows i new w w') : d.Owns w' i (·.Has [] u) :=
  h.follows hf fun _ _ hnone _ hp => hnone u hp

lemma ClientObject.Owns.follows_tuned {channel : String} {rest : List Reply}
    (h : d.Owns w i (Tuned w.log i channel rest)) (hf : Follows i new w w') :
    d.Owns w' i (Tuned w'.log i channel rest) := by
  refine h.follows hf fun l l' hnone hone hp => ?_
  rcases hp with ⟨ms, hms, hhas⟩ | hhas
  · refine Or.inl ⟨ms ++ new channel, hf.heard channel ms hms, ?_⟩
    have hnew := hone channel _ hhas
    rwa [List.append_assoc, ← List.map_append] at hnew
  · exact Or.inr (hnone rest hhas)

lemma CallStage.Holds.follows (h : k.Holds w i d) (hf : Follows i new w w') : k.Holds w' i d := by
  cases k with
  | free a => exact ⟨h.1.follows hf, h.2.imp id fun ho => ho.follows hf fun _ _ _ _ hp => hp⟩
  | clean a => exact ⟨h.1.follows hf, h.2.1, h.2.2.follows_none hf⟩
  | piping cs => exact ⟨h.1, h.2.1, h.2.2.follows_none hf⟩
  | listening channel => exact ⟨h.1, h.2.follows_tuned hf⟩
  | first channel v =>
      obtain ⟨hmarked, m, ms, hm, hv, howns⟩ := h
      refine ⟨hmarked, m, ms ++ new channel, hf.heard channel _ hm, hv,
        howns.follows hf fun l l' _ hone hp => ?_⟩
      have hnew := hone channel _ hp
      rwa [← List.map_append] at hnew
  | leaving channel v =>
      exact ⟨h.1.follows hf, h.2.follows hf fun _ _ hnone _ hp hmarked => hnone [] (hp hmarked)⟩

lemma CallStage.Mid.follows {op : SubOp} (h : k.Mid w i d op) (hf : Follows i new w w') :
    k.Mid w' i d op := by
  cases op with
  | readReply => exact absurd h id
  | subscribe channel =>
      obtain ⟨hmarked, r, howns⟩ := h
      exact ⟨hmarked, r, howns.follows_tuned hf⟩
  | unsubscribe channel =>
      obtain ⟨hmarked, v, ms, hk, hvalid, howns⟩ := h
      exact ⟨hmarked, v, ms, hk, hvalid.follows hf, howns.follows_none hf⟩
  | net op =>
      cases op with
      | auth password =>
          obtain ⟨hmarked, r, howns⟩ := h
          exact ⟨hmarked, r, howns.follows_none hf⟩
      | command c =>
          obtain ⟨hmarked, r, hr, howns⟩ := h
          exact ⟨hmarked, r, hf.log _ hr, howns.follows_none hf⟩
      | commitPipeline =>
          obtain ⟨hmarked, hk, rs, hlen, hrs, howns⟩ := h
          exact ⟨hmarked, hk, rs, hlen, hf.log _ hrs, howns.follows_none hf⟩
      | _ => exact absurd h id

lemma Stands.follows {op : SubOp} (h : Stands w i d k op) (hf : Follows i new w w') :
    Stands w' i d k op :=
  h.imp (fun hh => ⟨hh.1, hh.2.follows hf⟩) fun hm => ⟨hm.1, hm.2.follows hf⟩

end Follows

/-- A publication, as every caller sees it. -/
lemma follows_publish (i : ℕ) (w : Network) (channel payload : String) :
    Follows i (fun c => if channel = c then [payload] else []) w (w.publish channel payload) where
  log := fun e he => List.mem_cons_of_mem _ he
  heard := by
    intro c ms hms
    simp only [Network.publish, heard, hms, Option.map_some]
    split_ifs <;> simp
  connections := by
    intro n l hl hplace
    refine ⟨l.deliver channel payload, by simp [Network.publish, hl], ?_, ?_, ?_⟩
    · rw [Connection.deliver]
      split_ifs <;> exact hplace
    · rintro u ⟨hsubs, hunread⟩
      simp [Connection.deliver, Connection.Has, hsubs, hunread]
    · rintro c u ⟨hsubs, hunread⟩
      by_cases hc : channel = c <;> simp [Connection.deliver, Connection.Has, hsubs, hunread, hc]

lemma tidy_publish {w : Network} (h : w.Tidy) (channel payload : String) :
    (w.publish channel payload).Tidy := by
  intro n l hl
  simp only [Network.publish, List.getElem?_map, Option.map_eq_some_iff] at hl
  obtain ⟨l₀, hl₀, rfl⟩ := hl
  obtain ⟨hodd, hidle⟩ := h n l₀ hl₀
  rw [Connection.deliver]
  split_ifs with hmem
  · refine ⟨hodd, fun hplace => ?_⟩
    rw [(hidle hplace).1] at hmem
    exact absurd hmem (by simp)
  · exact ⟨hodd, hidle⟩

/-- Publications leave standing what every caller knows. -/
lemma Network.publishAll_induction {C : Network → Prop}
    (hstep : ∀ w channel payload, C w → C (w.publish channel payload)) {w : Network} (hw : C w)
    (ps : List (String × String)) : C (w.publishAll ps) := by
  induction ps generalizing w with
  | nil => exact hw
  | cons p ps ih => exact ih (hstep w p.1 p.2 hw)

/-! ### What a caller does itself -/

/-- The server has done this for caller `i`. -/
def Served.By (i : ℕ) : Served → Prop
  | executed j _ _ => j = i
  | subscribed j _ => j = i
  | published _ _ => False

/-- Caller `i` has left the connections of all others alone. -/
structure Moved (i : ℕ) (w w' : Network) : Prop where
  apart : ∀ (n : ℕ) (l : Connection) (j : ℕ), w.connections[n]? = some l → l.place = .held j →
    j ≠ i →
    w'.connections[n]? = some l
  log : w'.log = w.log ∨ ∃ e : Served, e.By i ∧ w'.log = e :: w.log
  tidy : w.Tidy → w'.Tidy

section Moves

variable {i n : ℕ} {w w' w'' : Network} {d : ClientObject} {k : CallStage} {l l' : Connection}

lemma Moved.refl (i : ℕ) (w : Network) : Moved i w w := ⟨fun _ _ _ hl _ _ => hl, Or.inl rfl, id⟩

/-- What caller `i` does is nothing to the others. -/
lemma Moved.follows {j : ℕ} (h : Moved i w w') (hj : j ≠ i) : Follows j (fun _ => []) w w' where
  log := by
    intro e he
    rcases h.log with heq | ⟨e', -, heq⟩ <;> rw [heq]
    · exact he
    · exact List.mem_cons_of_mem _ he
  heard := by
    intro channel ms hms
    rw [List.append_nil]
    rcases h.log with heq | ⟨e, he, heq⟩ <;> rw [heq]
    · exact hms
    · cases e with
      | executed i' cs rs => exact hms
      | subscribed i' c =>
          have hne : ¬ (i' = j ∧ c = channel) := fun hc => hj (hc.1.symm.trans he)
          simp only [AllInDocker.heard, hne, if_false]
          exact hms
      | published c m => exact absurd he id
  connections := by
    intro m l₀ hl₀ hplace
    refine ⟨l₀, h.apart m l₀ j hl₀ hplace hj, hplace, fun _ hu => hu, fun channel u hu => ?_⟩
    simpa using hu

/-- Changing the connection of the caller, or an idle one. -/
lemma moved_set {log : List Served} (hl : w.connections[n]? = some l)
    (hplace : l.place = .held i ∨ l.place = .idle) (hodd : l.odd = false → l'.odd = false)
    (hclean : l'.place = .idle → l'.Has [] [])
    (hlog : log = w.log ∨ ∃ e : Served, e.By i ∧ log = e :: w.log) :
    Moved i w ⟨w.connections.set n l', log⟩ where
  apart := by
    intro m l₀ j hl₀ hp hj
    have hne : n ≠ m := by
      rintro rfl
      obtain rfl := Option.some.inj (hl.symm.trans hl₀)
      rcases hplace with h | h <;> rw [h] at hp
      · exact hj (Place.held.inj hp).symm
      · exact absurd hp (by simp)
    rw [List.getElem?_set_ne hne]
    exact hl₀
  log := hlog
  tidy := by
    intro htidy m l₀ hl₀
    rw [List.getElem?_set] at hl₀
    split_ifs at hl₀ with hnm hlt
    · obtain rfl := Option.some.inj hl₀
      exact ⟨hodd (htidy n l hl).1, hclean⟩
    · exact htidy m l₀ hl₀

lemma ClientObject.Owns.imp {p q : Connection → Prop} (h : d.Owns w i p) (hpq : ∀ l, p l → q l) :
    d.Owns w i q := by
  obtain ⟨n, l, hn, hl, hplace, hp⟩ := h
  exact ⟨n, l, hn, hl, hplace, hpq l hp⟩

/-- The connection of the caller after a change. -/
lemma owns_set_connection {p : Connection → Prop} {log : List Served} (hn : d.connection = some n)
    (hl : w.connections[n]? = some l) (hplace : l'.place = .held i) (hp : p l') :
    d.Owns ⟨w.connections.set n l', log⟩ i p :=
  ⟨n, l', hn, List.getElem?_set_self (List.getElem?_eq_some_iff.mp hl).1, hplace, hp⟩

/-- Where a caller is after a step of an operation: at the next stage, or within it. -/
def Arrives (w : Network) (i : ℕ) (d : ClientObject) (k : CallStage) (op : SubOp) :
    Option op.Ans → Prop
  | some a => d.waiting = false ∧ (answering.next k op a).Holds w i d
  | none => Stands w i d k op

/-- A step of caller `i` leads on as the protocol has it; what it publishes comes last. -/
def Leads (i : ℕ) (w : Network) (k : CallStage) (op : SubOp)
    (r : Option op.Ans × ClientObject × Network) : Prop :=
  ∃ w₁ ps, r.2.2 = Network.publishAll w₁ ps ∧ Moved i w w₁ ∧ Arrives w₁ i r.2.1 k op r.1

lemma leads_of_moved {op : SubOp} {r : Option op.Ans × ClientObject × Network}
    (hm : Moved i w r.2.2) (ha : Arrives r.2.2 i r.2.1 k op r.1) : Leads i w k op r :=
  ⟨r.2.2, [], rfl, hm, ha⟩

lemma ClientObject.held_eq (hn : d.connection = some n) (hl : w.connections[n]? = some l) :
    d.held w = some (n, l) := by
  simp [ClientObject.held, hn, hl]

/-- Sending, and taking the reply. -/
lemma leads_exchange {op : SubOp} {ch : Choices} {failed : op.Ans}
    {send : ℕ → Connection → ClientObject × Network} {count : ℕ}
    {got : List Reply → ClientObject → op.Ans × ClientObject} (howns : d.Owns w i fun _ => True)
    (hfail : (answering.next k op failed).Holds w i { d with waiting := false })
    (hsend : d.waiting = false → ∀ n l, d.connection = some n → w.connections[n]? = some l →
      l.place = .held i → ∃ w₁ ps, (send n l).2 = Network.publishAll w₁ ps ∧ Moved i w w₁ ∧
        k.Mid w₁ i { (send n l).1 with waiting := true } op)
    (hstay : d.waiting = true → k.Mid w i d op)
    (hgot : d.waiting = true → ∀ n l, d.connection = some n → w.connections[n]? = some l →
      l.place = .held i → count ≤ l.unread.length →
      Arrives (w.read n l count) i
        (got (l.unread.take count) { d with waiting := false }).2 k op
        (some (got (l.unread.take count) { d with waiting := false }).1)) :
    Leads i w k op (d.exchange w ch failed send count got) := by
  obtain ⟨n, l, hn, hl, hplace, -⟩ := howns
  rw [ClientObject.exchange, ClientObject.held_eq hn hl]
  dsimp only
  split_ifs with hfails hwaiting hcount
  · exact leads_of_moved (Moved.refl i w) ⟨rfl, hfail⟩
  · refine leads_of_moved (moved_set hl (Or.inl hplace) id (fun hidle => ?_) (Or.inl rfl))
      (hgot hwaiting n l hn hl hplace hcount)
    exact absurd (hplace.symm.trans hidle) (by simp)
  · exact leads_of_moved (Moved.refl i w) (Or.inr ⟨hwaiting, hstay hwaiting⟩)
  · obtain ⟨w₁, ps, hw₁, hmoved, hmid⟩ := hsend (Bool.not_eq_true _ ▸ hwaiting) n l hn hl hplace
    exact ⟨w₁, ps, hw₁, hmoved, Or.inr ⟨rfl, hmid⟩⟩

/-- Ordinary commands on a connection with nothing on it: only their replies are there then. -/
lemma transfer_of_clean (ch : Choices) (cs : List Command) (hcs : cs.all Command.ordinary = true)
    (hn : d.connection = some n) (hl : w.connections[n]? = some l) (hplace : l.place = .held i)
    (hclean : l.Has [] []) : ∃ w₁ ps, w.transfer i n l ch cs = Network.publishAll w₁ ps ∧
      Moved i w w₁ ∧ ∃ rs, rs.length = cs.length ∧ .executed i cs rs ∈ w₁.log ∧
        d.Owns w₁ i (·.Has [] rs) := by
  refine ⟨_, ch.publishes, rfl, ?_, (List.range cs.length).map ch.reply, by simp,
    List.mem_cons_self .., ?_⟩
  · refine moved_set hl (Or.inl hplace) (fun hodd => ?_) (fun hidle => ?_)
      (Or.inr ⟨.executed i cs _, rfl, rfl⟩)
    · rw [if_pos hcs]
      exact hodd
    · rw [if_pos hcs] at hidle
      exact absurd (hplace.symm.trans hidle) (by simp)
  · refine owns_set_connection hn hl ?_ ?_ <;> rw [if_pos hcs]
    · exact hplace
    · exact ⟨hclean.1, by simp [hclean.2]⟩

/-- What is left on the connection when the replies have been taken. -/
lemma owns_drop_replies {u v : List Reply} {subs : List String} (hn : d.connection = some n)
    (hl : w.connections[n]? = some l) (hplace : l.place = .held i) (hhas : l.Has subs (u ++ v)) :
    d.Owns (w.read n l u.length) i (·.Has subs v) :=
  owns_set_connection hn hl hplace ⟨hhas.1, by simp [hhas.2]⟩

/-- What the caller owns is the connection it looks at. -/
lemma ClientObject.Owns.connection {p : Connection → Prop} (h : d.Owns w i p)
    (hn : d.connection = some n)
    (hl : w.connections[n]? = some l) : p l := by
  obtain ⟨n', l', hn', hl', -, hp⟩ := h
  obtain rfl := Option.some.inj (hn'.symm.trans hn)
  obtain rfl := Option.some.inj (hl'.symm.trans hl)
  exact hp

/-- The client's value of a reply is false only together with an error. -/
lemma isSome_of_isFalse {r : Reply} (h : r.result.1.isFalse = true) : r.result.2.isSome = true := by
  cases r <;> first | rfl | simp [Reply.result, Reply.entry, LuaVal.isFalse] at h

end Moves

end AllInDocker
