import AllInDocker.Openresty.Servers

/-!
Which location of the servers a URI gets into (`route`), and what the expressions of the
locations mean (`Hidden`, `PhpScript`, `Named`): `route_cases` has the five kinds of URI.
-/

namespace AllInDocker

open Locations Pcre Pcre.Re

/-! ### Which location answers -/

/-- The levels below the server for a request to a location that includes `general.conf`, with
the locations it may get into instead. -/
def route (d : Directives) (uri : List Char) : List Directives :=
  if dotFiles.search id uri then [included d, { denyAll := true }]
  else if (seq assetNames eol).search Char.toLower uri then [included d, {}]
  else if (seq fontNames eol).search Char.toLower uri then
    [included d, { addHeader := [fontHeader] }]
  else if (seq phpName eol).search id uri then [phpDirectives]
  else [included d]

variable {s : List Char}

/-- What is found in `general.conf`. -/
lemma locate_general (s : List Char) : locate s general =
    if dotFiles.search id s then .final [{ denyAll := true }]
    else if (seq assetNames eol).search Char.toLower s then .final [{}]
    else if (seq fontNames eol).search Char.toLower s then .final [{ addHeader := [fontHeader] }]
    else .declined := by
  rw [locate, choose_tests rfl]
  cases hdot : dotFiles.search id s <;>
    cases hasset : (seq assetNames eol).search Char.toLower s <;>
    cases hfont : (seq fontNames eol).search Char.toLower s <;>
    simp [general, matching, matchingCaseless, entries, Entry.passes, hdot, hasset, hfont] <;> rfl

/-- The location for the longest beginning, unless a test takes the request away from it. -/
lemma levels_locate {ls : List (Location Directives)} {w : String} {d : Directives}
    (hlongest : longest s (entries s ls) = some ⟨.beginning w.toList, included d,
      locate s general⟩)
    (htests : (entries s ls).find? (·.passes s) =
      if (seq phpName eol).search id s then
        some ⟨.test ((seq phpName eol).search id), phpDirectives, .declined⟩
      else none) :
    (locate s ls).levels = route d s := by
  have hgeneral := locate_general s
  rw [locate, route]
  split_ifs at hgeneral ⊢ with hdot hasset hfont hphp
  · rw [choose_of_ok hlongest hgeneral]
    rfl
  · rw [choose_of_ok hlongest hgeneral]
    rfl
  · rw [choose_of_ok hlongest hgeneral]
    rfl
  · rw [if_pos hphp] at htests
    rw [choose_of_test hlongest hgeneral htests]
    rfl
  · rw [if_neg hphp] at htests
    rw [choose_of_none hlongest hgeneral htests]
    rfl

/-- The locations for a beginning that include `general.conf`, with what is found in them. -/
lemma entries_includingGeneral (w : String) (d : Directives) (ls : List (Location Directives)) :
    entries s (includingGeneral w d :: ls) =
      ⟨.beginning w.toList, included d, locate s general⟩ :: entries s ls := rfl

/-- The location for PHP scripts. -/
lemma entries_phpLocation : entries s [phpLocation] =
    [⟨.test ((seq phpName eol).search id), phpDirectives, .declined⟩] := rfl

/-- A URI begins with a slash. -/
lemma Uri.isPrefixOf (uri : Uri) : "/".toList.isPrefixOf uri.text = true := by
  obtain ⟨rest, hrest⟩ := List.head?_eq_some_iff.mp uri.rooted
  simp [hrest]

/-- The locations that include `general.conf`. -/
inductive OuterLocation where
  | slash
  | test
  deriving DecidableEq

/-- Their directives. -/
def OuterLocation.directives : OuterLocation → Directives
  | slash => slashDirectives
  | test => testDirectives

/-- The one of `default.conf` that has the longest beginning. -/
def defaultOuter (uri : Uri) : OuterLocation :=
  if "/test".toList.isPrefixOf uri.text then .test else .slash

lemma levels_defaultConf (uri : Uri) : defaultConf.levels uri =
    serverDirectives "/data/www/".toList :: route (defaultOuter uri).directives uri.text := by
  refine congrArg (List.cons _) ?_
  rw [defaultOuter, defaultConf]
  cases htest : "/test".toList.isPrefixOf uri.text with
  | true =>
      refine levels_locate (w := "/test") ?_ ?_ <;>
        rw [entries_includingGeneral, entries_includingGeneral, entries_phpLocation]
      · simp only [longest, List.foldl_cons, List.foldl_nil, orLonger_beginning, orLonger_test,
          uri.isPrefixOf, htest, Option.all_none, Option.all_some, Bool.and_true, if_true]
        rfl
      · simp only [List.find?_cons, passes_beginning, passes_test, List.find?_nil]
        cases (seq phpName eol).search id uri.text <;> rfl
  | false =>
      refine levels_locate (w := "/") ?_ ?_ <;>
        rw [entries_includingGeneral, entries_includingGeneral, entries_phpLocation]
      · simp only [longest, List.foldl_cons, List.foldl_nil, orLonger_beginning, orLonger_test,
          uri.isPrefixOf, htest, Option.all_none, Bool.and_true, Bool.false_and, if_true]
        rfl
      · simp only [List.find?_cons, passes_beginning, passes_test, List.find?_nil]
        cases (seq phpName eol).search id uri.text <;> rfl

lemma levels_exampleConf (absPath : List Char) (uri : Uri) : (exampleConf absPath).levels uri =
    serverDirectives absPath :: route OuterLocation.slash.directives uri.text := by
  refine congrArg (List.cons _) (levels_locate (w := "/") ?_ ?_) <;>
    rw [exampleConf, entries_includingGeneral, entries_phpLocation]
  · simp only [longest, List.foldl_cons, List.foldl_nil, orLonger_beginning, orLonger_test,
      uri.isPrefixOf, Option.all_none, Bool.and_true, if_true]
    rfl
  · simp only [List.find?_cons, passes_beginning, passes_test, List.find?_nil]
    cases (seq phpName eol).search id uri.text <;> rfl

/-! ### What the expressions mean -/

/-- A name in the path begins with a dot, and not with `.well-known`. -/
def Hidden (s : List Char) : Prop :=
  ∃ a b, s = a ++ ("/.".toList ++ b) ∧ ¬ "well-known".toList <+: b

/-- The path ends in `.php`. -/
def PhpScript (s : List Char) : Prop := EndsIn id ".php".toList s

/-- The path ends in one of the names, in upper or lower case. -/
def Named (names : Re) (s : List Char) : Prop := ∃ w ∈ names.words, EndsIn Char.toLower w s

lemma search_dotFiles_iff : dotFiles.search id s = true ↔ Hidden s := search_notAhead_iff

lemma search_phpName_iff : (seq phpName eol).search id s = true ↔ PhpScript s := by
  rw [phpName, search_ending_iff (finite_str _), words_str]
  simp [PhpScript]

lemma search_assetNames_iff :
    (seq assetNames eol).search Char.toLower s = true ↔ Named assetNames s :=
  search_ending_iff (by decide +kernel)

lemma search_fontNames_iff :
    (seq fontNames eol).search Char.toLower s = true ↔ Named fontNames s :=
  search_ending_iff (by decide +kernel)

/-- Neither of two names is the end of the other, in upper or lower case. -/
def ApartNames (v w : List Char) : Prop :=
  w ≠ [] ∧ v ≠ [] ∧ '\n' ∉ w.map Char.toLower ∧ '\n' ∉ v.map Char.toLower ∧
    ¬ w.map Char.toLower <:+ v.map Char.toLower ∧ ¬ v.map Char.toLower <:+ w.map Char.toLower

instance (v w : List Char) : Decidable (ApartNames v w) := inferInstanceAs (Decidable (_ ∧ _))

lemma ApartNames.not_endsIn {v w : List Char} (h : ApartNames v w) (hv : EndsIn Char.toLower v s) :
    ¬ EndsIn Char.toLower w s := by
  obtain ⟨hne, hne', hnewline, hnewline', hwv, hvw⟩ := h
  intro hw
  rcases hw.comparable hv ⟨hne, hne'⟩ ⟨hnewline, hnewline'⟩ with h | h
  · exact hwv h
  · exact hvw h

/-- Names of which none is the end of another are not ends of one path. -/
lemma not_named_of_apart {names : Re} {v : List Char} (hnames : ∀ w ∈ names.words, ApartNames v w)
    (hv : EndsIn Char.toLower v s) : ¬ Named names s := by
  rintro ⟨w, hw, hends⟩
  exact (hnames w hw).not_endsIn hv hends

lemma not_phpScript_of_apart {v : List Char} (h : ApartNames v ".php".toList)
    (hv : EndsIn Char.toLower v s) : ¬ PhpScript s :=
  fun hphp => h.not_endsIn hv (hphp.caseless _)

/-- A script is no asset and no font. -/
lemma PhpScript.not_named (h : PhpScript s) : ¬ Named assetNames s ∧ ¬ Named fontNames s :=
  ⟨not_named_of_apart (by decide +kernel) (h.caseless _),
    not_named_of_apart (by decide +kernel) (h.caseless _)⟩

/-- A font is no asset. -/
lemma not_asset_of_font (h : Named fontNames s) : ¬ Named assetNames s := by
  obtain ⟨v, hv, hends⟩ := h
  have hwords : ∀ v ∈ fontNames.words, ∀ w ∈ assetNames.words, ApartNames v w := by decide +kernel
  exact not_named_of_apart (hwords v hv) hends

/-- Who answers, by the path. -/
lemma route_cases (d : Directives) (s : List Char) :
    (Hidden s ∧ route d s = [included d, { denyAll := true }]) ∨
    (¬ Hidden s ∧ ¬ PhpScript s ∧ Named fontNames s ∧
      route d s = [included d, { addHeader := [fontHeader] }]) ∨
    (¬ Hidden s ∧ PhpScript s ∧ ¬ Named fontNames s ∧ route d s = [phpDirectives]) ∨
    (¬ Hidden s ∧ ¬ PhpScript s ∧ ¬ Named fontNames s ∧ Named assetNames s ∧
      route d s = [included d, {}]) ∨
    (¬ Hidden s ∧ ¬ PhpScript s ∧ ¬ Named fontNames s ∧ ¬ Named assetNames s ∧
      route d s = [included d]) := by
  by_cases hdot : Hidden s
  · exact .inl ⟨hdot, if_pos (search_dotFiles_iff.mpr hdot)⟩
  rw [route, if_neg (mt search_dotFiles_iff.mp hdot)]
  by_cases hasset : Named assetNames s
  · rw [if_pos (search_assetNames_iff.mpr hasset)]
    exact .inr (.inr (.inr (.inl ⟨hdot, fun hphp => hphp.not_named.1 hasset,
      fun hfont => not_asset_of_font hfont hasset, hasset, rfl⟩)))
  rw [if_neg (mt search_assetNames_iff.mp hasset)]
  by_cases hfont : Named fontNames s
  · rw [if_pos (search_fontNames_iff.mpr hfont)]
    exact .inr (.inl ⟨hdot, fun hphp => hphp.not_named.2 hfont, hfont, rfl⟩)
  rw [if_neg (mt search_fontNames_iff.mp hfont)]
  by_cases hphp : PhpScript s
  · rw [if_pos (search_phpName_iff.mpr hphp)]
    exact .inr (.inr (.inl ⟨hdot, hphp, hfont, rfl⟩))
  · rw [if_neg (mt search_phpName_iff.mp hphp)]
    exact .inr (.inr (.inr (.inr ⟨hdot, hphp, hfont, hasset, rfl⟩)))

lemma route_of_script {d : Directives} (hdot : ¬ Hidden s) (hphp : PhpScript s) :
    route d s = [phpDirectives] := by
  obtain ⟨hdot', -⟩ | ⟨-, hphp', -⟩ | ⟨-, -, -, hroute⟩ | ⟨-, hphp', -⟩ | ⟨-, hphp', -⟩ :=
    route_cases d s
  · exact absurd hdot' hdot
  · exact absurd hphp hphp'
  · exact hroute
  · exact absurd hphp hphp'
  · exact absurd hphp hphp'

lemma route_of_plain {d : Directives} (hdot : ¬ Hidden s)
    (hnamed : ¬ PhpScript s ∧ ¬ Named assetNames s ∧ ¬ Named fontNames s) :
    route d s = [included d] := by
  obtain ⟨hdot', -⟩ | ⟨-, -, hfont, -⟩ | ⟨-, hphp, -⟩ | ⟨-, -, -, hasset, -⟩ |
    ⟨-, -, -, -, hroute⟩ := route_cases d s
  · exact absurd hdot' hdot
  · exact absurd hfont hnamed.2.2
  · exact absurd hphp hnamed.1
  · exact absurd hasset hnamed.2.1
  · exact hroute

/-! ### Names at the end of a URI -/

/-- A name in a directory is not hidden by what the directory is not hidden by. -/
lemma not_hidden_append {name : List Char} (hs : ¬ Hidden s) (hdot : name.head? ≠ some '.')
    (hname : ¬ "/.".toList <:+: name) : ¬ Hidden (s ++ name) := by
  rintro ⟨a, b, heq, hwell⟩
  rcases List.append_eq_append_iff.mp heq with ⟨c, -, hc⟩ | ⟨c, hc, hrest⟩
  · exact hname ⟨c, b, by rw [hc, List.append_assoc]⟩
  · have hrest : '/' :: '.' :: b = c ++ name := hrest
    -- the slash and the dot are in the name, on both sides, or in the directory
    rcases c with _ | ⟨x, _ | ⟨y, c⟩⟩
    · exact hname ⟨[], b, hrest⟩
    · obtain rfl : '.' :: b = name := (List.cons.inj hrest).2
      exact hdot rfl
    · obtain ⟨rfl, hdots⟩ := List.cons.inj hrest
      obtain ⟨rfl, rfl⟩ := List.cons.inj hdots
      exact hs ⟨a, c, hc, fun hpre => hwell (hpre.trans (List.prefix_append c name))⟩

/-- A URI ends in the text that is put at its end. -/
lemma endsIn_append (f : Char → Char) (s name : List Char) : EndsIn f name (s ++ name) :=
  ⟨s, name, rfl, .inl rfl⟩

/-- What ends in a slash is neither a script nor a font nor an asset. -/
lemma not_named_of_slash (hs : s.getLast? = some '/') :
    ¬ PhpScript s ∧ ¬ Named assetNames s ∧ ¬ Named fontNames s := by
  have hends : EndsIn Char.toLower ['/'] s := by
    obtain ⟨a, rfl⟩ := List.getLast?_eq_some_iff.mp hs
    exact endsIn_append _ a _
  exact ⟨not_phpScript_of_apart (by decide +kernel) hends,
    not_named_of_apart (by decide +kernel) hends, not_named_of_apart (by decide +kernel) hends⟩

/-- The index files that are no scripts are no fonts and no assets either. -/
lemma not_named_of_index {name : List Char}
    (hname : name ∈ ["index.html".toList, "index.htm".toList]) :
    ¬ PhpScript (s ++ name) ∧ ¬ Named assetNames (s ++ name) ∧ ¬ Named fontNames (s ++ name) := by
  have hends := endsIn_append Char.toLower s name
  simp only [List.mem_cons, List.not_mem_nil, or_false] at hname
  rcases hname with rfl | rfl <;>
    exact ⟨not_phpScript_of_apart (by decide +kernel) hends,
      not_named_of_apart (by decide +kernel) hends, not_named_of_apart (by decide +kernel) hends⟩

/-- The `index.php` of a directory is a script. -/
lemma phpScript_append (s : List Char) : PhpScript (s ++ "index.php".toList) :=
  ⟨s ++ "index".toList, ".php".toList, rfl, .inl (by rw [List.append_assoc]; rfl)⟩

/-- Nothing in the root is hidden that does not begin with a dot. -/
lemma not_hidden_indexPhp : ¬ Hidden indexPhp.text := by
  rw [← search_dotFiles_iff]
  decide +kernel

lemma phpScript_indexPhp : PhpScript indexPhp.text := phpScript_append ['/']

/-- A name in a directory of `default.conf` is in the same location. -/
lemma defaultOuter_append {uri : Uri} {name : List Char} (hslash : uri.text.getLast? = some '/')
    (hname : name.head? = some 'i') : defaultOuter (uri.append name) = defaultOuter uri := by
  have hiff : "/test".toList <+: uri.text ++ name ↔ "/test".toList <+: uri.text := by
    refine ⟨fun h => ?_, fun h => h.trans (List.prefix_append _ _)⟩
    have hcases := List.prefix_or_prefix_of_prefix h (List.prefix_append _ _)
    refine hcases.resolve_right fun hinit => ?_
    have hinits : ∀ t ∈ "/test".toList.inits, t.getLast? = some '/' → t = ['/'] := by decide
    obtain ⟨rest, rfl⟩ := List.head?_eq_some_iff.mp hname
    rw [hinits _ ((List.mem_inits _ _).mpr hinit) hslash] at h
    exact absurd (List.cons_prefix_cons.mp (List.cons_prefix_cons.mp h).2).1 (by decide)
  rw [← List.isPrefixOf_iff_prefix, ← List.isPrefixOf_iff_prefix] at hiff
  exact if_congr hiff rfl rfl

end AllInDocker
