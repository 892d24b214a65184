import AllInDocker.Wrapper.Answers.Frame

/-!
The steps of a caller, operation by operation: each leads on as the protocol has it
(`leads_perform`).
-/

namespace AllInDocker

open Coro

section Moves

variable {i n : ℕ} {w w' w'' : Network} {d : ClientObject} {k : CallStage} {l l' : Connection}

lemma leads_auth {ch : Choices} {password : String} (hk : k = .clean .nothing)
    (hat : Stands w i d k (.net (.auth password))) :
    Leads i w k (.net (.auth password))
      (ClientObject.perform ch i (.net (.auth password)) (d, w)) := by
  subst hk
  have howns : d.Owns w i fun _ => True := by
    rcases hat with ⟨-, -, -, h⟩ | ⟨-, -, r, h⟩ <;> exact h.imp fun _ _ => trivial
  rw [ClientObject.perform]
  refine leads_exchange howns ?_ (fun hw n l hn hl hplace => ?_) (fun hw => ?_)
    fun hw n l hn hl hplace hcount => ?_
  · exact ⟨trivial, Or.inr howns⟩
  · obtain ⟨-, -, hmarked, hclean⟩ := hat.resolve_right (by simp [hw])
    obtain ⟨w₁, ps, heq, hmoved, rs, hlen, -, hrs⟩ := transfer_of_clean ch
      [⟨.auth, [.str password]⟩] rfl hn hl hplace (hclean.connection hn hl)
    obtain ⟨r, rfl⟩ := List.length_eq_one_iff.mp hlen
    exact ⟨w₁, ps, heq, hmoved, hmarked, r, hrs⟩
  · exact (hat.resolve_left (by simp [hw])).2
  · obtain ⟨-, hmarked, r, hr⟩ := hat.resolve_left (by simp [hw])
    have hhas := hr.connection hn hl
    have hleft := owns_drop_replies (u := [r]) (v := []) (d := { d with waiting := false }) hn hl
      hplace hhas
    rw [hhas.2]
    refine ⟨rfl, ?_⟩
    cases hadm : ClientObject.admitted (List.take 1 [r]) with
    | error e => exact ⟨trivial, Or.inr (hleft.imp fun _ _ => trivial)⟩
    | ok u => exact ⟨trivial, hmarked, hleft⟩

lemma leads_command {ch : Choices} {c : Command} (hk : k = .clean .nothing) (hc : c.ordinary = true)
    (hat : Stands w i d k (.net (.command c))) :
    Leads i w k (.net (.command c)) (ClientObject.perform ch i (.net (.command c)) (d, w)) := by
  subst hk
  have howns : d.Owns w i fun _ => True := by
    rcases hat with ⟨-, -, -, h⟩ | ⟨-, -, r, -, h⟩ <;> exact h.imp fun _ _ => trivial
  have hname : c.name ≠ .psubscribe := by
    intro h
    simp [Command.ordinary, h] at hc
  rw [ClientObject.perform]
  refine leads_exchange howns ?_ (fun hw n l hn hl hplace => ?_) (fun hw => ?_)
    fun hw n l hn hl hplace hcount => ?_
  · exact ⟨rfl, Or.inr howns⟩
  · obtain ⟨-, -, hmarked, hclean⟩ := hat.resolve_right (by simp [hw])
    obtain ⟨w₁, ps, heq, hmoved, rs, hlen, hlog, hrs⟩ := transfer_of_clean ch [c]
      (by simp [hc]) hn hl hplace (hclean.connection hn hl)
    obtain ⟨r, rfl⟩ := List.length_eq_one_iff.mp hlen
    exact ⟨w₁, ps, heq, hmoved, by simp [hmarked, hname], r, hlog, hrs⟩
  · exact (hat.resolve_left (by simp [hw])).2
  · obtain ⟨-, hmarked, r, hlog, hr⟩ := hat.resolve_left (by simp [hw])
    have hhas := hr.connection hn hl
    have hleft := owns_drop_replies (u := [r]) (v := []) (d := { d with waiting := false }) hn hl
      hplace hhas
    rw [hhas.2]
    refine ⟨rfl, ?_⟩
    simp only [List.take_succ_cons, List.take_zero, ClientObject.single, answering]
    split_ifs with herr
    · refine ⟨?_, Or.inr (hleft.imp fun _ _ => trivial)⟩
      rcases Bool.or_eq_true_iff.mp herr with h | h
      · exact isSome_of_isFalse h
      · exact h
    · simp only [Bool.or_eq_true, not_or, Bool.not_eq_true, Option.isSome_eq_false_iff,
        Option.isNone_iff_eq_none] at herr
      exact ⟨⟨r, hlog, Prod.ext rfl herr.2⟩, hmarked, hleft⟩

lemma leads_commitPipeline {ch : Choices} {cs : List Command} (hk : k = .piping cs)
    (hcs : ∀ c ∈ cs, c.ordinary = true) (hat : Stands w i d k (.net .commitPipeline)) :
    Leads i w k (.net .commitPipeline)
      (ClientObject.perform ch i (.net .commitPipeline) (d, w)) := by
  subst hk
  have howns : d.Owns w i fun _ => True := by
    rcases hat with ⟨-, -, -, h⟩ | ⟨-, -, -, rs, -, -, h⟩ <;> exact h.imp fun _ _ => trivial
  rw [ClientObject.perform]
  refine leads_exchange howns ?_ (fun hw n l hn hl hplace => ?_) (fun hw => ?_)
    fun hw n l hn hl hplace hcount => ?_
  · exact ⟨rfl, Or.inr howns⟩
  · obtain ⟨-, rfl, hmarked, hclean⟩ := hat.resolve_right (by simp [hw])
    obtain ⟨w₁, ps, heq, hmoved, rs, hlen, hlog, hrs⟩ := transfer_of_clean ch
      d.piped (by simpa using hcs) hn hl hplace (hclean.connection hn hl)
    exact ⟨w₁, ps, heq, hmoved, hmarked, rfl, rs, hlen, hlog, hrs⟩
  · exact (hat.resolve_left (by simp [hw])).2
  · obtain ⟨-, hmarked, hpiped, rs, hlen, hlog, hrs⟩ := hat.resolve_left (by simp [hw])
    obtain rfl := CallStage.piping.inj hpiped
    have hhas := hrs.connection hn hl
    have hleft := owns_drop_replies (u := rs) (v := [])
      (d := { d with waiting := false, piped := [] }) hn hl hplace (by simpa using hhas)
    rw [hhas.2, ← hlen, List.take_length]
    exact ⟨rfl, ⟨rs, hlog, hlen, rfl⟩, hmarked, hleft⟩

lemma leads_subscribe {ch : Choices} {channel : String} (hk : k = .clean .nothing)
    (hat : Stands w i d k (.subscribe channel)) :
    Leads i w k (.subscribe channel) (ClientObject.perform ch i (.subscribe channel) (d, w)) := by
  subst hk
  have howns : d.Owns w i fun _ => True := by
    rcases hat with ⟨-, -, -, h⟩ | ⟨-, -, r, h⟩ <;> exact h.imp fun _ _ => trivial
  rw [ClientObject.perform]
  refine leads_exchange howns ?_ (fun hw n l hn hl hplace => ?_) (fun hw => ?_)
    fun hw n l hn hl hplace hcount => ?_
  · exact ⟨rfl, Or.inr howns⟩
  · obtain ⟨-, -, -, hclean⟩ := hat.resolve_right (by simp [hw])
    obtain ⟨hsubs, hunread⟩ := hclean.connection hn hl
    have hidle : ∀ {l' : Connection}, l'.place = l.place → l'.place = .idle → l'.Has [] [] :=
      fun hp h => absurd (hplace.symm.trans (hp.symm.trans h)) (by simp)
    simp only [Network.subscribe]
    split_ifs
    · refine ⟨_, [], rfl, moved_set hl (Or.inl hplace) id (hidle rfl)
        (Or.inr ⟨.subscribed i channel, rfl, rfl⟩), rfl,
        AllInDocker.subscribed channel (l.subs.insert channel).length, ?_⟩
      refine owns_set_connection hn hl hplace (Or.inl ⟨[], by simp [heard], ?_⟩)
      simp [Connection.Has, hsubs, hunread]
    · refine ⟨_, [], rfl, moved_set hl (Or.inl hplace) id (hidle rfl) (Or.inl rfl), rfl,
        ch.reply 0, owns_set_connection hn hl hplace (Or.inr ⟨hsubs, by simp [hunread]⟩)⟩
  · exact (hat.resolve_left (by simp [hw])).2
  · obtain ⟨-, hmarked, r, hr⟩ := hat.resolve_left (by simp [hw])
    -- the first reply is taken, and what was heard meanwhile stays
    obtain ⟨rest, hunread, hleft⟩ : ∃ rest, l.unread = r :: rest ∧
        ClientObject.Owns { d with waiting := false } (w.read n l 1) i
          (Tuned w.log i channel []) := by
      rcases hr.connection hn hl with ⟨ms, hms, hhas⟩ | hhas
      · exact ⟨_, hhas.2, (owns_drop_replies (u := [r]) hn hl hplace hhas).imp fun _ h =>
          Or.inl ⟨ms, hms, h⟩⟩
      · exact ⟨[], hhas.2, (owns_drop_replies (u := [r]) hn hl hplace hhas).imp fun _ h => Or.inr h⟩
    rw [hunread]
    refine ⟨rfl, ?_⟩
    simp only [List.take_succ_cons, List.take_zero, ClientObject.single, answering]
    split_ifs with hfalse
    · exact ⟨isSome_of_isFalse hfalse, Or.inr (hleft.imp fun _ _ => trivial)⟩
    · exact ⟨hmarked, hleft⟩

/-- A message does not end a subscription. -/
lemma unmark_message {d : ClientObject} (channel m : String) :
    (ClientObject.unmark [message channel m] d).marked = d.marked := by
  simp [ClientObject.unmark, message, Reply.endsAll]

lemma leads_readReply {ch : Choices} {channel : String} (hk : k = .listening channel)
    (hat : Stands w i d k .readReply) :
    Leads i w k .readReply (ClientObject.perform ch i .readReply (d, w)) := by
  subst hk
  obtain ⟨hw, hmarked, howns⟩ := hat.resolve_right fun h => h.2
  have hany : d.Owns w i fun _ => True := howns.imp fun _ _ => trivial
  obtain ⟨n, l, hn, hl, hplace, htuned⟩ := howns
  simp only [ClientObject.perform, ClientObject.readReply, hmarked, ClientObject.held_eq hn hl]
  split_ifs
  · simp_all
  · exact leads_of_moved (Moved.refl i w) ⟨hw, rfl, Or.inr hany⟩
  · cases hunread : l.unread with
    | nil =>
        refine leads_of_moved (Moved.refl i w) (Or.inl ⟨hw, hmarked, n, l, hn, hl, hplace, htuned⟩)
    | cons r rest =>
        -- something has come, so the subscription was accepted and this is its first message
        rcases htuned with ⟨ms, hms, hhas⟩ | hhas
        · obtain ⟨m, ms, rfl, rfl, rfl⟩ : ∃ m ms', ms = m :: ms' ∧ r = message channel m ∧
              rest = ms'.map (message channel) := by
            cases ms with
            | nil => simp [hunread, Connection.Has] at hhas
            | cons m ms' =>
                have heq := hunread.symm.trans hhas.2
                simp only [List.nil_append, List.map_cons, List.cons.injEq] at heq
                exact ⟨m, ms', rfl, heq.1, heq.2⟩
          refine leads_of_moved (moved_set hl (Or.inl hplace) id (fun hidle => ?_) (Or.inl rfl))
            ⟨hw, (unmark_message channel m).trans hmarked, m, ms, hms, rfl, ?_⟩
          · exact absurd (hplace.symm.trans hidle) (by simp)
          · exact owns_drop_replies (u := [message channel m]) hn hl hplace hhas
        · exact absurd (hhas.2.symm.trans hunread) (by simp)

lemma leads_unsubscribe {ch : Choices} {channel : String} {v : LuaVal} (hk : k = .first channel v)
    (hat : Stands w i d k (.unsubscribe channel)) :
    Leads i w k (.unsubscribe channel)
      (ClientObject.perform ch i (.unsubscribe channel) (d, w)) := by
  subst hk
  have howns : d.Owns w i fun _ => True := by
    rcases hat with ⟨-, -, m, ms, -, -, h⟩ | ⟨-, -, v, ms, -, -, h⟩ <;>
      exact h.imp fun _ _ => trivial
  have hmarked : d.marked = true := hat.elim (fun h => h.2.1) fun h => h.2.1
  have hvalid : (Known.first channel v).Valid w.log i := by
    rcases hat with ⟨-, -, m, ms, hm, hv, -⟩ | ⟨-, -, v', ms, hk, hvalid, -⟩
    · exact ⟨m, ms, hm, hv⟩
    · obtain ⟨-, rfl⟩ := CallStage.first.inj hk
      exact hvalid
  rw [ClientObject.perform]
  refine leads_exchange howns ?_ (fun hw n l hn hl hplace => ?_) (fun hw => ?_)
    fun hw n l hn hl hplace hcount => ?_
  · exact ⟨hvalid, howns.imp fun l _ h => absurd (hmarked.symm.trans h) (by simp)⟩
  · obtain ⟨-, -, m, ms, -, -, hms⟩ := hat.resolve_right (by simp [hw])
    obtain ⟨hsubs, hunread⟩ := hms.connection hn hl
    refine ⟨_, [], rfl, moved_set hl (Or.inl hplace) id (fun hidle => ?_) (Or.inl rfl), hmarked, v,
      ms, rfl, hvalid, owns_set_connection hn hl hplace ?_⟩
    · exact absurd (hplace.symm.trans hidle) (by simp)
    · simp [Connection.Has, hsubs, hunread]
  · exact (hat.resolve_left (by simp [hw])).2
  · obtain ⟨-, -, v', ms, -, -, hms⟩ := hat.resolve_left (by simp [hw])
    have hhas := hms.connection hn hl
    refine ⟨rfl, hvalid, ?_⟩
    cases ms with
    | nil =>
        exact (owns_drop_replies (u := [unsubscribed channel 0]) (v := []) hn hl hplace hhas).imp
          fun _ h _ => h
    | cons m ms =>
        -- a message stands before the confirmation: the object stays marked
        refine owns_set_connection hn hl hplace fun hfalse => ?_
        rw [hhas.2] at hfalse
        exact absurd ((unmark_message channel m).symm.trans hfalse) (by simp [hmarked])

/-- Closing the connection of the caller, which it then knows nothing of. -/
lemma moved_close (h : d.connection = none ∨ d.Owns w i fun _ => True) :
    Moved i w (w.close d.connection) := by
  rcases h with hnone | ⟨n, l, hn, hl, hplace, -⟩
  · rw [hnone]
    exact Moved.refl i w
  · rw [hn, Network.close, List.modify_eq_set_getElem?, hl]
    exact moved_set hl (Or.inl hplace) id (by simp) (Or.inl rfl)

/-- Opening a new connection. -/
lemma moved_open (i : ℕ) (w : Network) :
    Moved i w { w with connections := w.connections ++ [.opened i] } where
  apart := fun n l j hl _ _ => by
    rw [List.getElem?_append_left (List.getElem?_eq_some_iff.mp hl).1]
    exact hl
  log := Or.inl rfl
  tidy := by
    intro htidy n l hl
    rw [List.getElem?_append] at hl
    split_ifs at hl with hlt
    · exact htidy n l hl
    · obtain rfl := List.mem_singleton.mp (List.mem_of_getElem? hl)
      exact ⟨rfl, by simp [Connection.opened]⟩

/-- There is nothing on a connection that has just been made. -/
lemma connect_of_tidy (htidy : w.Tidy) (take : Option ℕ) :
    Moved i w (w.connect i take).1 ∧ (w.connect i take).1.log = w.log ∧
      ClientObject.Owns { ClientObject.blank with connection := some (w.connect i take).2 }
        (w.connect i take).1 i
        (·.Has [] []) := by
  have hnew : ClientObject.Owns { ClientObject.blank with connection := some w.connections.length }
      { w with connections := w.connections ++ [.opened i] } i (·.Has [] []) :=
    ⟨w.connections.length, .opened i, rfl, by simp, rfl, rfl, rfl⟩
  rw [Network.connect]
  split
  · rename_i n l htake
    obtain ⟨n', -, hmap⟩ := Option.bind_eq_some_iff.mp htake
    obtain ⟨l', hl, heq⟩ := Option.map_eq_some_iff.mp hmap
    obtain ⟨rfl, rfl⟩ := Prod.mk.inj heq
    split_ifs with hplace
    · exact ⟨moved_set hl (Or.inr hplace) id (by simp) (Or.inl rfl), rfl,
        owns_set_connection rfl hl rfl ((htidy _ _ hl).2 hplace)⟩
    · exact ⟨moved_open i w, rfl, hnew⟩
  · exact ⟨moved_open i w, rfl, hnew⟩

/-- Two moves that add to the log at most once. -/
lemma Moved.trans (h₁ : Moved i w w') (h₂ : Moved i w' w'') (hlog : w''.log = w'.log) :
    Moved i w w'' where
  apart := fun n l j hl hp hj => h₂.apart n l j (h₁.apart n l j hl hp hj) hp hj
  log := by
    rw [hlog]
    exact h₁.log
  tidy := fun h => h₂.tidy (h₁.tidy h)

/-- Whatever a caller knows, it holds no connection or one of its own. -/
lemma CallStage.Holds.owns (h : k.Holds w i d) :
    d.connection = none ∨ d.Owns w i fun _ => True := by
  cases k with
  | free a => exact h.2
  | clean a => exact Or.inr (h.2.2.imp fun _ _ => trivial)
  | piping cs => exact Or.inr (h.2.2.imp fun _ _ => trivial)
  | listening channel => exact Or.inr (h.2.imp fun _ _ => trivial)
  | first channel v =>
      obtain ⟨-, m, ms, -, -, howns⟩ := h
      exact Or.inr (howns.imp fun _ _ => trivial)
  | leaving channel v => exact Or.inr (h.2.imp fun _ _ => trivial)

lemma leads_connect {ch : Choices} {t port : ℕ} {host : String} (htidy : w.Tidy)
    (hat : Stands w i d k (.net (.connect t host port))) :
    Leads i w k (.net (.connect t host port))
      (ClientObject.perform ch i (.net (.connect t host port)) (d, w)) := by
  obtain ⟨hw, hholds⟩ := hat.resolve_right fun h => h.2
  have hclose := moved_close hholds.owns
  simp only [ClientObject.perform]
  split_ifs
  · exact leads_of_moved hclose ⟨rfl, trivial, Or.inl rfl⟩
  · obtain ⟨hmoved, hlog, howns⟩ := connect_of_tidy (i := i) (hclose.tidy htidy) ch.take
    exact leads_of_moved (hclose.trans hmoved hlog) ⟨rfl, trivial, rfl, howns⟩

lemma leads_setKeepalive {ch : Choices} {t size : ℕ}
    (hk : (∃ a, k = .clean a) ∨ ∃ channel v, k = .leaving channel v)
    (hat : Stands w i d k (.net (.setKeepalive t size))) :
    Leads i w k (.net (.setKeepalive t size))
      (ClientObject.perform ch i (.net (.setKeepalive t size)) (d, w)) := by
  obtain ⟨hw, hholds⟩ := hat.resolve_right fun h => h.2
  have howns := hholds.owns
  -- a connection that is given back has nothing on it, and the result stays
  obtain ⟨a, hnext, hvalid, hclean⟩ : ∃ a, answering.next k (.net (.setKeepalive t size)) () =
      .free a ∧ a.Valid w.log i ∧ d.Owns w i fun l => d.marked = false → l.Has [] [] := by
    rcases hk with ⟨a, rfl⟩ | ⟨channel, v, rfl⟩
    · exact ⟨a, rfl, hholds.1, hholds.2.2.imp fun _ h _ => h⟩
    · exact ⟨.first channel v, rfl, hholds.1, hholds.2⟩
  have hclose := moved_close howns
  obtain ⟨n, l, hn, hl, hplace, hl'⟩ := hclean
  simp only [ClientObject.perform, ClientObject.setKeepalive]
  split_ifs with hmarked
  · refine leads_of_moved (Moved.refl i w) ⟨hw, ?_⟩
    rw [hnext]
    exact ⟨hvalid, howns⟩
  · refine leads_of_moved hclose ⟨rfl, ?_⟩
    rw [hnext]
    refine ⟨?_, Or.inl rfl⟩
    rw [hn]
    exact hvalid
  · simp only [hn, List.modify_eq_set_getElem?, hl]
    refine leads_of_moved (moved_set hl (Or.inl hplace) id (fun _ => hl' (by simpa using hmarked))
      (Or.inl rfl)) ⟨rfl, ?_⟩
    rw [hnext]
    exact ⟨hvalid, Or.inl rfl⟩

/-- Every step that the protocol allows leads on as it has it. -/
lemma leads_perform (ch : Choices) {op : SubOp} (htidy : w.Tidy) (hat : Stands w i d k op)
    (hallow : answering.allow k op) : Leads i w k op (ClientObject.perform ch i op (d, w)) := by
  cases op with
  | subscribe channel => exact leads_subscribe hallow hat
  | readReply =>
      obtain ⟨channel, hk⟩ := hallow
      exact leads_readReply hk hat
  | unsubscribe channel =>
      obtain ⟨v, hk⟩ := hallow
      exact leads_unsubscribe hk hat
  | net op =>
      cases op with
      | new => exact leads_of_moved (Moved.refl i w) ⟨rfl, trivial, Or.inl rfl⟩
      | connect t host port => exact leads_connect htidy hat
      | getReusedTimes =>
          obtain rfl : k = .clean .nothing := hallow
          obtain ⟨hw, -, hmarked, howns⟩ := hat.resolve_right fun h => h.2
          have hany : d.Owns w i fun _ => True := howns.imp fun _ _ => trivial
          obtain ⟨n, l, hn, hl, hplace, hclean⟩ := howns
          simp only [ClientObject.perform, ClientObject.held_eq hn hl]
          cases ch.fails with
          | true => exact leads_of_moved (Moved.refl i w) ⟨hw, trivial, Or.inr hany⟩
          | false =>
              exact leads_of_moved (Moved.refl i w)
                ⟨hw, trivial, hmarked, n, l, hn, hl, hplace, hclean⟩
      | auth password => exact leads_auth hallow hat
      | command c => exact leads_command hallow.1 hallow.2 hat
      | initPipeline =>
          obtain rfl : k = .clean .nothing := hallow
          obtain ⟨hw, -, hmarked, howns⟩ := hat.resolve_right fun h => h.2
          exact leads_of_moved (Moved.refl i w) ⟨hw, rfl, hmarked, howns⟩
      | pipe c =>
          obtain ⟨hc, cs, rfl⟩ := hallow
          obtain ⟨hw, rfl, hmarked, howns⟩ := hat.resolve_right fun h => h.2
          have hname : c.name ≠ .psubscribe := by
            intro h
            simp [Command.ordinary, h] at hc
          have hunmarked : (d.marked || decide (c.name = .psubscribe)) = false := by
            simp [hmarked, hname]
          exact leads_of_moved (Moved.refl i w) ⟨hw, rfl, hunmarked, howns⟩
      | commitPipeline =>
          obtain ⟨cs, hk, hcs⟩ := hallow
          exact leads_commitPipeline hk hcs hat
      | setKeepalive t size => exact leads_setKeepalive hallow hat

end Moves

end AllInDocker
