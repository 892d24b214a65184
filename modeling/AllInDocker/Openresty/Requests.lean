import AllInDocker.Openresty.Phases

/-!
What becomes of a request to one of the servers, whatever is on the disk.

`serve_cases` says once how a request can end: denied, with a script, with the question for the
password or with an answer about files. It is sent on once at most.

* `access_iff`: access is denied exactly to what has a name with a leading dot in its path,
  `.well-known` apart, PHP scripts included. For what begins with `/test` a password is asked
  for, but not for PHP scripts, which the location for them takes away from `/test`. PHP gets the
  scripts, `/index.php` for what is not there, and the `index.php` of directories.
* `headers_eq`: the security headers come with every answer but those for fonts, which have a
  header of their own, and those of PHP, whose location is outside of the ones that include
  `general.conf`.
-/

namespace AllInDocker

open Locations

variable {v : VirtualServer} {text : List Char} {outer : Uri → OuterLocation}

/-! ### The whole of a request -/

lemma follow_of_answer {disk : Disk} {r : HttpRequest} {a : HttpAnswer}
    (h : v.phases disk r = .answer a) (n : ℕ) : v.follow disk n r = ⟨v.levels r.uri, a⟩ := by
  cases n <;> rw [VirtualServer.follow, h]

lemma follow_of_redirect {disk : Disk} {r : HttpRequest} {uri : Uri}
    (h : v.phases disk r = .redirect uri) (n : ℕ) :
    v.follow disk (n + 1) r = v.follow disk n { r with uri := uri } := by
  rw [VirtualServer.follow, h]

/-- The reply of PHP. -/
def phpReply (text uri : List Char) : HttpReply where
  levels := [serverDirectives text, phpDirectives]
  answer := .script ((DocumentRoot.ofRoot text).text ++ uri)

/-- PHP answers for scripts. -/
lemma follow_of_script (h : Serves v text outer) (disk : Disk) (n : ℕ) {r : HttpRequest}
    (hdot : ¬ Hidden r.uri.text) (hphp : PhpScript r.uri.text) :
    v.follow disk n r = phpReply text r.uri.text := by
  have hlevels : v.levels r.uri = [serverDirectives text, phpDirectives] := by
    rw [h.levels, route_of_script hdot hphp]
  obtain ⟨hdot', -⟩ | ⟨-, -, hphases⟩ | ⟨-, hphp', -⟩ | ⟨-, hphp', -⟩ | ⟨-, hphp', -⟩ :=
    phases_cases h disk r
  · exact absurd hdot' hdot
  · rw [follow_of_answer hphases, hlevels]
    rfl
  all_goals exact absurd hphp hphp'

/-- The path of a name in a directory. -/
lemma path_append (h : Serves v text outer) (uri : Uri) (name : List Char) :
    ((outer uri).root text).path (uri.append name) = ((outer uri).root text).path uri ++ name := by
  have hcut : ((outer uri).root text).cut ≤ uri.text.length := by
    cases houter : outer uri with
    | slash => exact Nat.zero_le _
    | test => exact (h.test uri houter).length_le
  rw [DocumentRoot.path, DocumentRoot.path, Uri.append, List.drop_append_of_le_length hcut,
    List.append_assoc]

/-- The index files before `index.php`. -/
lemma indexBefore_spec {l : OuterLocation} {name : List Char} (h : name ∈ l.indexBefore) :
    name ∈ ["index.html".toList, "index.htm".toList] ∧ name.head? = some 'i' ∧
      ¬ "/.".toList <:+: name ∧ (name.getLast? = some 'l' ∨ name.getLast? = some 'm') := by
  have hall : ∀ l : OuterLocation, ∀ name ∈ l.indexBefore,
      name ∈ ["index.html".toList, "index.htm".toList] ∧ name.head? = some 'i' ∧
        ¬ "/.".toList <:+: name ∧ (name.getLast? = some 'l' ∨ name.getLast? = some 'm') := by
    intro l
    cases l <;> decide +kernel
  exact hall l name h

/-- An index file that is no script is answered for by the location of the directory. -/
lemma follow_of_index (h : Serves v text outer) (disk : Disk) (n : ℕ) {r : HttpRequest}
    {name : List Char} (hdot : ¬ Hidden r.uri.text) (hadmits : (outer r.uri).Admits r)
    (hslash : r.uri.text.getLast? = some '/') (hname : name ∈ (outer r.uri).indexBefore)
    (hthere : disk (((outer r.uri).root text).path r.uri ++ name) ≠ none) :
    (v.follow disk n { r with uri := r.uri.append name }).levels = v.levels r.uri ∧
      (v.follow disk n { r with uri := r.uri.append name }).answer.OfFiles := by
  obtain ⟨hnames, hhead, hinside, hlast⟩ := indexBefore_spec hname
  have hdot' : ¬ Hidden (r.uri.text ++ name) :=
    not_hidden_append hdot (by rw [hhead]; decide) hinside
  have hnamed := not_named_of_index (s := r.uri.text) hnames
  have houter : outer (r.uri.append name) = outer r.uri := h.append r.uri name hslash hhead
  have hlevels : v.levels (r.uri.append name) = v.levels r.uri := by
    rw [h.levels, h.levels, houter, route_of_plain hdot (not_named_of_slash hslash)]
    exact congrArg _ (route_of_plain hdot' hnamed)
  have hpath := path_append h r.uri name
  obtain ⟨hdot'', -⟩ | ⟨-, hphp, -⟩ | ⟨-, -, htest, hauthorised, -⟩ | ⟨-, -, hback, -⟩ |
    ⟨-, -, -, -, hphases⟩ := phases_cases h disk { r with uri := r.uri.append name }
  · exact absurd hdot'' hdot'
  · exact absurd hphp hnamed.1
  · exact absurd (hadmits (houter ▸ htest)) (by simpa using hauthorised)
  · have hnothing := hback.nothing
    rw [houter, hpath] at hnothing
    exact absurd hnothing hthere
  · have hend : (r.uri.append name).text.getLast? ≠ some '/' := by
      rcases hlast with hlast | hlast <;>
        simp [Uri.append, List.getLast?_append, hlast]
    rw [OuterLocation.content, fileContent] at hphases
    by_cases hmethod : r.method = .other
    · rw [if_pos hmethod] at hphases
      rw [follow_of_answer hphases]
      exact ⟨hlevels, trivial⟩
    · rw [if_neg hmethod, if_neg hend] at hphases
      rw [follow_of_answer hphases]
      exact ⟨hlevels, ofFiles_staticFile disk _ _⟩

/-- The URI of the script PHP runs for a request: its own, that of the fallback, or that of an
index file. -/
inductive ScriptFor (disk : Disk) (text : List Char) (l : OuterLocation) (r : HttpRequest) :
    List Char → Prop
  | own (hdot : ¬ Hidden r.uri.text) (hphp : PhpScript r.uri.text) :
      ScriptFor disk text l r r.uri.text
  | fallback (hdot : ¬ Hidden r.uri.text) (hphp : ¬ PhpScript r.uri.text)
      (hback : FallsBack disk text l r.uri) : ScriptFor disk text l r "/index.php".toList
  | index (hdot : ¬ Hidden r.uri.text) (hadmits : l.Admits r)
      (hindex : HasIndexPhp disk ((l.root text).path r.uri) l.indexBefore r) :
      ScriptFor disk text l r (r.uri.text ++ "index.php".toList)

/-- A request has one script at most. -/
lemma ScriptFor.unique {disk : Disk} {l : OuterLocation} {r : HttpRequest} {a b : List Char}
    (ha : ScriptFor disk text l r a) (hb : ScriptFor disk text l r b) : a = b := by
  have hindex : ∀ {uri : Uri}, disk ((l.root text).path uri) = some .directory →
      ¬ FallsBack disk text l uri := by
    intro uri hdir hback
    rw [hback.nothing] at hdir
    cases hdir
  cases ha with
  | own hdot hphp =>
      cases hb with
      | own => rfl
      | fallback _ hphp' => exact absurd hphp hphp'
      | index _ _ h => exact absurd hphp (not_named_of_slash h.slash).1
  | fallback hdot hphp hback =>
      cases hb with
      | own _ hphp' => exact absurd hphp' hphp
      | fallback => rfl
      | index _ _ h => exact absurd hback (hindex h.directory)
  | index hdot hadmits h =>
      cases hb with
      | own _ hphp => exact absurd hphp (not_named_of_slash h.slash).1
      | fallback _ _ hback => exact absurd hback (hindex h.directory)
      | index => rfl

lemma ScriptFor.not_hidden {disk : Disk} {l : OuterLocation} {r : HttpRequest} {a : List Char}
    (h : ScriptFor disk text l r a) : ¬ Hidden r.uri.text := by
  cases h <;> assumption

/-- The password is asked for before anything but a script. -/
lemma ScriptFor.admits {disk : Disk} {l : OuterLocation} {r : HttpRequest} {a : List Char}
    (h : ScriptFor disk text l r a) (hphp : ¬ PhpScript r.uri.text) : l.Admits r := by
  cases h with
  | own _ hphp' => exact absurd hphp' hphp
  | fallback _ _ hback => exact fun htest => absurd (hback.slash.symm.trans htest) (by decide)
  | index _ hadmits => exact hadmits

/-- How a request is answered. -/
lemma serve_cases (h : Serves v text outer) (disk : Disk) (r : HttpRequest) :
    (Hidden r.uri.text ∧ v.serve disk r = ⟨v.levels r.uri, .denied⟩) ∨
    (∃ uri, ScriptFor disk text (outer r.uri) r uri ∧ v.serve disk r = phpReply text uri) ∨
    (¬ Hidden r.uri.text ∧ ¬ PhpScript r.uri.text ∧ outer r.uri = .test ∧
      r.authorised = false ∧ v.serve disk r = ⟨v.levels r.uri, .unauthorised⟩) ∨
    (¬ Hidden r.uri.text ∧ ¬ PhpScript r.uri.text ∧ (outer r.uri).Admits r ∧
      (∀ uri, ¬ ScriptFor disk text (outer r.uri) r uri) ∧
      (v.serve disk r).levels = v.levels r.uri ∧ (v.serve disk r).answer.OfFiles) := by
  have hne : (outer r.uri).indexBefore ≠ [] := by
    cases outer r.uri <;> simp [OuterLocation.indexBefore]
  obtain ⟨hdot, hphases⟩ | ⟨hdot, hphp, -⟩ | ⟨hdot, hphp, htest, hauthorised, hphases⟩ |
    ⟨hdot, hphp, hback, hphases⟩ | ⟨hdot, hphp, hadmits, hback, hphases⟩ := phases_cases h disk r
  · exact .inl ⟨hdot, follow_of_answer hphases 10⟩
  · exact .inr (.inl ⟨_, .own hdot hphp, follow_of_script h disk 10 hdot hphp⟩)
  · exact .inr (.inr (.inl ⟨hdot, hphp, htest, hauthorised, follow_of_answer hphases 10⟩))
  · refine .inr (.inl ⟨_, .fallback hdot hphp hback, ?_⟩)
    rw [VirtualServer.serve, follow_of_redirect hphases]
    exact follow_of_script h disk 9 (r := { r with uri := indexPhp }) not_hidden_indexPhp
      phpScript_indexPhp
  · -- the location has files: without `index.php` there is no script
    have hscript : ¬ HasIndexPhp disk (((outer r.uri).root text).path r.uri)
        (outer r.uri).indexBefore r → ∀ uri, ¬ ScriptFor disk text (outer r.uri) r uri := by
      rintro hindex uri (⟨-, hphp'⟩ | ⟨-, -, hback'⟩ | ⟨-, -, hindex'⟩)
      · exact hphp hphp'
      · exact hback hback'
      · exact hindex hindex'
    obtain ⟨hindex, hcontent⟩ | ⟨hindex, name, hname, hslash, hthere, hcontent⟩ |
      ⟨hindex, a, ha, hcontent⟩ := fileContent_cases disk ((outer r.uri).root text) hne r <;>
        rw [OuterLocation.content, hcontent] at hphases
    · refine .inr (.inl ⟨_, .index hdot hadmits hindex, ?_⟩)
      rw [VirtualServer.serve, follow_of_redirect hphases]
      exact follow_of_script h disk 9 (r := { r with uri := r.uri.append "index.php".toList })
        (not_hidden_append hdot (by decide) (by decide +kernel)) (phpScript_append r.uri.text)
    · refine .inr (.inr (.inr ⟨hdot, hphp, hadmits, hscript hindex, ?_⟩))
      rw [VirtualServer.serve, follow_of_redirect hphases]
      exact follow_of_index h disk 9 hdot hadmits hslash hname hthere
    · refine .inr (.inr (.inr ⟨hdot, hphp, hadmits, hscript hindex, ?_⟩))
      rw [VirtualServer.serve, follow_of_answer hphases]
      exact ⟨rfl, ha⟩

/-! ### The servers -/

lemma serves_defaultConf : Serves defaultConf "/data/www/".toList defaultOuter where
  levels := levels_defaultConf
  test uri h := by
    rw [defaultOuter] at h
    split_ifs at h with htest
    exact List.isPrefixOf_iff_prefix.mp htest
  append _ _ := defaultOuter_append

lemma serves_exampleConf (absPath : List Char) :
    Serves (exampleConf absPath) absPath fun _ => .slash where
  levels := levels_exampleConf absPath
  test _ h := by cases h
  append _ _ _ _ := rfl

/-- Access, and what PHP gets. -/
lemma access_of_serves (h : Serves v text outer) (disk : Disk) (r : HttpRequest) :
    ((v.serve disk r).answer = .denied ↔ Hidden r.uri.text) ∧
    ((v.serve disk r).answer = .unauthorised ↔ ¬ Hidden r.uri.text ∧ ¬ PhpScript r.uri.text ∧
      outer r.uri = .test ∧ r.authorised = false) ∧
    ∀ filename, (v.serve disk r).answer = .script filename ↔
      ∃ uri, ScriptFor disk text (outer r.uri) r uri ∧
        filename = (DocumentRoot.ofRoot text).text ++ uri := by
  obtain ⟨hdot, hserve⟩ | ⟨uri, huri, hserve⟩ | ⟨hdot, hphp, htest, hauthorised, hserve⟩ |
    ⟨hdot, hphp, hadmits, hscript, -, hfiles⟩ := serve_cases h disk r
  · rw [hserve]
    refine ⟨iff_of_true rfl hdot, iff_of_false (by simp) fun hnot => hnot.1 hdot, fun filename =>
      iff_of_false (by simp) ?_⟩
    rintro ⟨uri, huri, -⟩
    exact huri.not_hidden hdot
  · rw [hserve]
    refine ⟨iff_of_false (by simp [phpReply]) huri.not_hidden, iff_of_false (by simp [phpReply]) ?_,
      fun filename => ⟨fun heq => ⟨uri, huri, (HttpAnswer.script.inj heq).symm⟩, ?_⟩⟩
    · rintro ⟨-, hphp, htest, hauthorised⟩
      exact absurd (huri.admits hphp htest) (by simp [hauthorised])
    · rintro ⟨uri', huri', rfl⟩
      rw [huri.unique huri']
      rfl
  · rw [hserve]
    refine ⟨iff_of_false (by simp) hdot, iff_of_true rfl ⟨hdot, hphp, htest, hauthorised⟩,
      fun filename => iff_of_false (by simp) ?_⟩
    rintro ⟨uri, huri, -⟩
    exact absurd (huri.admits hphp htest) (by simp [hauthorised])
  · refine ⟨iff_of_false (fun heq => ?_) hdot, iff_of_false (fun heq => ?_) ?_, fun filename =>
      iff_of_false (fun heq => ?_) ?_⟩
    · rw [heq] at hfiles
      exact hfiles
    · rw [heq] at hfiles
      exact hfiles
    · rintro ⟨-, -, htest, hauthorised⟩
      exact absurd (hadmits htest) (by simp [hauthorised])
    · rw [heq] at hfiles
      exact hfiles
    · rintro ⟨uri, huri, -⟩
      exact hscript uri huri

example : (defaultConf.serve (fun _ => none)
    ⟨⟨"/test/admin.php".toList, rfl⟩, .get, false⟩).answer =
      .script "/data/www/test/admin.php".toList := by decide +kernel

example : (defaultConf.serve (fun _ => none)
    ⟨⟨"/api/users".toList, rfl⟩, .post, false⟩).answer =
      .script "/data/www/index.php".toList := by decide +kernel

/-- The headers that are added to a reply, by the URI that was asked for. -/
structure SendsHeaders (reply : HttpReply) (uri : Uri) (status : ℕ) : Prop where
  php : (∃ filename, reply.answer = .script filename) → reply.headers status = []
  font : (∀ filename, reply.answer ≠ .script filename) → ¬ Hidden uri.text →
    Named fontNames uri.text →
      reply.headers status = if status ∈ addedStatuses then [fontHeader] else []
  security : (∀ filename, reply.answer ≠ .script filename) →
    Hidden uri.text ∨ ¬ Named fontNames uri.text → reply.headers status = securityHeaders

/-- The headers of the levels of a URI that is no script. -/
lemma headers_of_levels {reply : HttpReply} {uri : Uri} {l : OuterLocation} (status : ℕ)
    (hlevels : reply.levels = serverDirectives text :: route l.directives uri.text)
    (hphp : ¬ Hidden uri.text → ¬ PhpScript uri.text) :
    (¬ Hidden uri.text → Named fontNames uri.text →
      reply.headers status = if status ∈ addedStatuses then [fontHeader] else []) ∧
    (Hidden uri.text ∨ ¬ Named fontNames uri.text → reply.headers status = securityHeaders) := by
  have hadded : securityHeaders.filter (fun h => h.always || decide (status ∈ addedStatuses)) =
      securityHeaders := rfl
  have hsome : securityHeaders ≠ [] := by decide
  obtain ⟨hdot, hroute⟩ | ⟨hdot, -, hfont, hroute⟩ | ⟨hdot, hphp', -, hroute⟩ |
    ⟨hdot, -, hfont, -, hroute⟩ | ⟨hdot, -, hfont, -, hroute⟩ :=
      route_cases l.directives uri.text <;> rw [hroute] at hlevels
  · refine ⟨fun hnot => absurd hdot hnot, fun _ => ?_⟩
    simp [HttpReply.headers, hlevels, inherited, included, hadded, hsome]
  · refine ⟨fun _ _ => ?_, fun hor => absurd hfont (hor.resolve_left hdot)⟩
    by_cases hstatus : status ∈ addedStatuses <;>
      simp [HttpReply.headers, hlevels, inherited, hstatus, fontHeader]
  · exact absurd hphp' (hphp hdot)
  all_goals
    refine ⟨fun _ h => absurd h hfont, fun _ => ?_⟩
    simp [HttpReply.headers, hlevels, inherited, included, hadded, hsome]

lemma sendsHeaders_of_serves (h : Serves v text outer) (disk : Disk) (r : HttpRequest)
    (status : ℕ) : SendsHeaders (v.serve disk r) r.uri status := by
  have hown : (v.serve disk r).levels = v.levels r.uri →
      (¬ Hidden r.uri.text → ¬ PhpScript r.uri.text) →
      (∀ filename, (v.serve disk r).answer ≠ .script filename) →
        SendsHeaders (v.serve disk r) r.uri status := by
    intro hlevels hphp hnone
    obtain ⟨hfont, hsecurity⟩ := headers_of_levels status (hlevels.trans (h.levels r.uri)) hphp
    refine ⟨?_, fun _ => hfont, fun _ => hsecurity⟩
    rintro ⟨filename, heq⟩
    exact absurd heq (hnone filename)
  obtain ⟨hdot, hserve⟩ | ⟨uri, -, hserve⟩ | ⟨hdot, hphp, -, -, hserve⟩ |
    ⟨hdot, hphp, -, -, hlevels, hfiles⟩ := serve_cases h disk r
  · refine hown (by rw [hserve]) (fun hnot => absurd hdot hnot) ?_
    simp [hserve]
  · rw [hserve]
    exact ⟨fun _ => rfl, fun hnone => absurd rfl (hnone _), fun hnone => absurd rfl (hnone _)⟩
  · refine hown (by rw [hserve]) (fun _ => hphp) ?_
    simp [hserve]
  · refine hown hlevels (fun _ => hphp) fun filename heq => ?_
    rw [heq] at hfiles
    exact hfiles

end AllInDocker
