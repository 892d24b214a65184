import AllInDocker.Openresty.Routes

/-!
How the phases of one location end.

`phases_cases` has the five ends there are in the location of a URI, for a server laid out as the
two of `conf.d` are (`Serves`), and `fileContent_cases` the three of a content phase with files.
-/

namespace AllInDocker

open Locations

/-! ### One location -/

/-- The names of index files before `index.php`. -/
def OuterLocation.indexBefore : OuterLocation → List (List Char)
  | slash => ["index.html".toList, "index.htm".toList]
  | test => ["index.html".toList]

/-- Where the files are, on a server with the root `text`. -/
def OuterLocation.root (text : List Char) : OuterLocation → DocumentRoot
  | slash => .ofRoot text
  | test => .ofAlias "/test" "/data/www/"

/-- Its content phase. -/
def OuterLocation.content (text : List Char) (disk : Disk) (r : HttpRequest)
    (l : OuterLocation) : HttpOutcome :=
  fileContent disk (l.root text) (l.indexBefore ++ ["index.php".toList]) r

/-- A server with the root `text`, and the location that includes `general.conf` for each URI. -/
structure Serves (v : VirtualServer) (text : List Char) (outer : Uri → OuterLocation) : Prop where
  levels : ∀ uri, v.levels uri =
    serverDirectives text :: route (outer uri).directives uri.text
  test : ∀ uri, outer uri = .test → "/test".toList <+: uri.text
  append : ∀ uri name, uri.text.getLast? = some '/' → name.head? = some 'i' →
    outer (uri.append name) = outer uri

/-- The password is right, or not asked for. -/
def OuterLocation.Admits (l : OuterLocation) (r : HttpRequest) : Prop :=
  l = .test → r.authorised = true

/-- Nothing is at the path of the URI, and no location inside of `/` takes it. -/
structure FallsBack (disk : Disk) (text : List Char) (l : OuterLocation) (uri : Uri) : Prop where
  slash : l = .slash
  asset : ¬ Named assetNames uri.text
  font : ¬ Named fontNames uri.text
  nothing : disk (l.root text |>.path uri) = none

/-- The URI is that of a directory with an `index.php` and none of the names before it. -/
structure HasIndexPhp (disk : Disk) (path : List Char) (before : List (List Char))
    (r : HttpRequest) : Prop where
  slash : r.uri.text.getLast? = some '/'
  method : r.method ≠ .other
  directory : disk path = some .directory
  before : ∀ name ∈ before, disk (path ++ name) = none
  present : disk (path ++ "index.php".toList) ≠ none

/-- The answers about files. -/
def HttpAnswer.OfFiles : HttpAnswer → Prop
  | denied | unauthorised | script _ | cycle => False
  | file _ | moved | noIndex | missing | notAllowed => True

variable {v : VirtualServer} {text : List Char} {outer : Uri → OuterLocation}

/-- What holds in a location that includes `general.conf`, and in those inside that only add
headers. -/
lemma settings_of_levels {uri : Uri} {l : OuterLocation} {rest : List Directives}
    (hlevels : v.levels uri = serverDirectives text :: included l.directives :: rest)
    (hrest : rest = [] ∨ ∃ hs, rest = [{ addHeader := hs }]) :
    v.denied uri = false ∧ v.realm uri = l.directives.authBasic ∧ v.handler uri = none ∧
      v.root uri = l.root text ∧ v.index uri = l.indexBefore ++ ["index.php".toList] := by
  rcases hrest with rfl | ⟨hs, rfl⟩ <;> cases l <;>
    simp [VirtualServer.denied, VirtualServer.realm, VirtualServer.handler, VirtualServer.root,
      VirtualServer.index, hlevels, inherited, included, OuterLocation.directives,
      OuterLocation.root, OuterLocation.indexBefore, slashDirectives, testDirectives,
      serverDirectives]

/-- The access phase there. -/
lemma access_of_levels {r : HttpRequest} {l : OuterLocation} {rest : List Directives}
    (hlevels : v.levels r.uri = serverDirectives text :: included l.directives :: rest)
    (hrest : rest = [] ∨ ∃ hs, rest = [{ addHeader := hs }]) :
    (l = .test ∧ r.authorised = false ∧ v.access r = some .unauthorised) ∨
      l.Admits r ∧ v.access r = none := by
  obtain ⟨hdenied, hrealm, -⟩ := settings_of_levels hlevels hrest
  rw [VirtualServer.access, hdenied, hrealm]
  cases l with
  | slash => exact .inr ⟨fun h => absurd h (by decide), rfl⟩
  | test =>
      cases hauthorised : r.authorised with
      | false => exact .inl ⟨rfl, rfl, rfl⟩
      | true => exact .inr ⟨fun _ => hauthorised, rfl⟩

/-- The content phase there. -/
lemma content_of_levels {r : HttpRequest} {l : OuterLocation} {rest : List Directives}
    (hlevels : v.levels r.uri = serverDirectives text :: included l.directives :: rest)
    (hrest : rest = [] ∨ ∃ hs, rest = [{ addHeader := hs }]) (disk : Disk) :
    v.content disk r = l.content text disk r := by
  obtain ⟨-, -, hhandler, hroot, hindex⟩ := settings_of_levels hlevels hrest
  rw [VirtualServer.content, hhandler, hroot, hindex]
  rfl

/-- The location of the assets and that of the fonts have no `try_files`. -/
lemma phases_of_inner {r : HttpRequest} {l : OuterLocation} {hs : List Header}
    (hlevels : v.levels r.uri =
      [serverDirectives text, included l.directives, { addHeader := hs }]) (disk : Disk) :
    (l = .test ∧ r.authorised = false ∧ v.phases disk r = .answer .unauthorised) ∨
      l.Admits r ∧ v.phases disk r = l.content text disk r := by
  have htryFiles : v.tryFiles r.uri = none := by
    rw [VirtualServer.tryFiles, hlevels]
    rfl
  rw [← content_of_levels hlevels (.inr ⟨hs, rfl⟩), VirtualServer.phases, htryFiles]
  obtain ⟨hl, hauthorised, haccess⟩ | ⟨hadmits, haccess⟩ :=
    access_of_levels hlevels (.inr ⟨hs, rfl⟩)
  · exact .inl ⟨hl, hauthorised, by rw [haccess]⟩
  · exact .inr ⟨hadmits, by rw [haccess]⟩

/-- In the location `/` itself something has to be at the path. -/
lemma phases_of_outer {r : HttpRequest} {l : OuterLocation}
    (hlevels : v.levels r.uri = [serverDirectives text, included l.directives]) (disk : Disk) :
    (l = .test ∧ r.authorised = false ∧ v.phases disk r = .answer .unauthorised) ∨
      (l = .slash ∧ disk ((l.root text).path r.uri) = none ∧
        v.phases disk r = .redirect indexPhp) ∨
      l.Admits r ∧ (l = .slash → disk ((l.root text).path r.uri) ≠ none) ∧
        v.phases disk r = l.content text disk r := by
  have htryFiles : v.tryFiles r.uri = l.directives.tryFiles := by
    rw [VirtualServer.tryFiles, hlevels]
    rfl
  obtain ⟨-, -, -, hroot, -⟩ := settings_of_levels hlevels (.inl rfl)
  rw [← content_of_levels hlevels (.inl rfl), VirtualServer.phases, htryFiles, hroot]
  obtain ⟨hl, hauthorised, haccess⟩ | ⟨hadmits, haccess⟩ := access_of_levels hlevels (.inl rfl) <;>
    rw [haccess]
  · exact .inl ⟨hl, hauthorised, rfl⟩
  · cases l with
    | test => exact .inr (.inr ⟨hadmits, fun h => absurd h (by decide), rfl⟩)
    | slash =>
        cases hdisk : disk ((OuterLocation.slash.root text).path r.uri) with
        | none => exact .inr (.inl ⟨rfl, rfl, rfl⟩)
        | some kind =>
            refine .inr (.inr ⟨hadmits, fun _ => Option.some_ne_none kind, ?_⟩)
            cases kind <;> rfl

/-- How the phases end in the location of a URI. -/
lemma phases_cases (h : Serves v text outer) (disk : Disk) (r : HttpRequest) :
    (Hidden r.uri.text ∧ v.phases disk r = .answer .denied) ∨
    (¬ Hidden r.uri.text ∧ PhpScript r.uri.text ∧
      v.phases disk r = .answer (.script ((DocumentRoot.ofRoot text).text ++ r.uri.text))) ∨
    (¬ Hidden r.uri.text ∧ ¬ PhpScript r.uri.text ∧ outer r.uri = .test ∧
      r.authorised = false ∧ v.phases disk r = .answer .unauthorised) ∨
    (¬ Hidden r.uri.text ∧ ¬ PhpScript r.uri.text ∧ FallsBack disk text (outer r.uri) r.uri ∧
      v.phases disk r = .redirect indexPhp) ∨
    (¬ Hidden r.uri.text ∧ ¬ PhpScript r.uri.text ∧ (outer r.uri).Admits r ∧
      ¬ FallsBack disk text (outer r.uri) r.uri ∧
      v.phases disk r = (outer r.uri).content text disk r) := by
  have hlevels := h.levels r.uri
  generalize outer r.uri = l at hlevels ⊢
  obtain ⟨hdot, hroute⟩ | ⟨hdot, hphp, hfont, hroute⟩ | ⟨hdot, hphp, -, hroute⟩ |
    ⟨hdot, hphp, -, hasset, hroute⟩ | ⟨hdot, hphp, hfont, hasset, hroute⟩ :=
      route_cases l.directives r.uri.text <;> rw [hroute] at hlevels
  · refine .inl ⟨hdot, ?_⟩
    simp [VirtualServer.phases, VirtualServer.access, VirtualServer.denied, hlevels, inherited]
  · obtain ⟨hl, hauthorised, hphases⟩ | ⟨hadmits, hphases⟩ := phases_of_inner hlevels disk
    · exact .inr (.inr (.inl ⟨hdot, hphp, hl, hauthorised, hphases⟩))
    · exact .inr (.inr (.inr (.inr ⟨hdot, hphp, hadmits, fun hback => hback.font hfont, hphases⟩)))
  · refine .inr (.inl ⟨hdot, hphp, ?_⟩)
    simp [VirtualServer.phases, VirtualServer.access, VirtualServer.denied, VirtualServer.realm,
      VirtualServer.tryFiles, VirtualServer.content, VirtualServer.handler, VirtualServer.root,
      hlevels, inherited, phpDirectives, serverDirectives]
  · obtain ⟨hl, hauthorised, hphases⟩ | ⟨hadmits, hphases⟩ := phases_of_inner hlevels disk
    · exact .inr (.inr (.inl ⟨hdot, hphp, hl, hauthorised, hphases⟩))
    · exact .inr (.inr (.inr (.inr ⟨hdot, hphp, hadmits, fun hback => hback.asset hasset,
        hphases⟩)))
  · obtain ⟨hl, hauthorised, hphases⟩ | ⟨hl, hnothing, hphases⟩ | ⟨hadmits, hthere, hphases⟩ :=
      phases_of_outer hlevels disk
    · exact .inr (.inr (.inl ⟨hdot, hphp, hl, hauthorised, hphases⟩))
    · exact .inr (.inr (.inr (.inl ⟨hdot, hphp, ⟨hl, hasset, hfont, hnothing⟩, hphases⟩)))
    · exact .inr (.inr (.inr (.inr ⟨hdot, hphp, hadmits,
        fun hback => hthere hback.slash hback.nothing, hphases⟩)))

/-! ### Index files -/

/-- `index` finds the first of its names, or nothing. -/
lemma directoryIndex_cases (disk : Disk) (path : List Char) (uri : Uri)
    (names : List (List Char)) :
    (∃ a : HttpAnswer, a.OfFiles ∧ directoryIndex disk path uri names = .answer a) ∨
    ∃ before name after, names = before ++ name :: after ∧
      (∀ b ∈ before, disk (path ++ b) = none) ∧
      (before ≠ [] → disk path = some .directory) ∧ disk (path ++ name) ≠ none ∧
      directoryIndex disk path uri names = .redirect (uri.append name) := by
  induction names with
  | nil => exact .inl ⟨.noIndex, trivial, rfl⟩
  | cons name names ih =>
      rw [directoryIndex]
      cases hname : disk (path ++ name) with
      | some kind => exact .inr ⟨[], name, names, rfl, by simp, by simp, by simp [hname], rfl⟩
      | none =>
          by_cases hdir : disk path = some .directory
          · rw [if_neg (by simp), if_pos hdir]
            obtain h | ⟨before, name', after, rfl, hbefore, -, hname', heq⟩ := ih
            · exact .inl h
            · refine .inr ⟨name :: before, name', after, rfl, ?_, fun _ => hdir, hname', heq⟩
              simpa [hname] using hbefore
          · rw [if_neg (by simp), if_neg hdir]
            exact .inl ⟨.missing, trivial, rfl⟩

/-- The first name that is there is found. -/
lemma directoryIndex_of_first {disk : Disk} {path : List Char} (uri : Uri)
    {before : List (List Char)} {name : List Char} (after : List (List Char))
    (hdir : disk path = some .directory) (hbefore : ∀ b ∈ before, disk (path ++ b) = none)
    (hname : disk (path ++ name) ≠ none) :
    directoryIndex disk path uri (before ++ name :: after) = .redirect (uri.append name) := by
  induction before with
  | nil => rw [List.nil_append, directoryIndex, if_pos (Option.isSome_iff_ne_none.mpr hname)]
  | cons b before ih =>
      rw [List.cons_append, directoryIndex, hbefore b (by simp), if_neg (by simp), if_pos hdir]
      exact ih fun c hc => hbefore c (by simp [hc])

lemma ofFiles_staticFile (disk : Disk) (path : List Char) (method : HttpMethod) :
    (staticFile disk path method).OfFiles := by
  rw [staticFile]
  split
  · trivial
  · trivial
  · split_ifs <;> trivial

/-- How the content phase of a location with files ends. -/
lemma fileContent_cases (disk : Disk) (root : DocumentRoot) {before : List (List Char)}
    (hne : before ≠ []) (r : HttpRequest) :
    (HasIndexPhp disk (root.path r.uri) before r ∧
      fileContent disk root (before ++ ["index.php".toList]) r =
        .redirect (r.uri.append "index.php".toList)) ∨
    (¬ HasIndexPhp disk (root.path r.uri) before r ∧ ∃ name ∈ before,
      r.uri.text.getLast? = some '/' ∧ disk (root.path r.uri ++ name) ≠ none ∧
      fileContent disk root (before ++ ["index.php".toList]) r = .redirect (r.uri.append name)) ∨
    (¬ HasIndexPhp disk (root.path r.uri) before r ∧ ∃ a : HttpAnswer, a.OfFiles ∧
      fileContent disk root (before ++ ["index.php".toList]) r = .answer a) := by
  rw [fileContent]
  by_cases hindex : HasIndexPhp disk (root.path r.uri) before r
  · rw [if_neg hindex.method, if_pos hindex.slash]
    exact .inl ⟨hindex, directoryIndex_of_first r.uri [] hindex.directory hindex.before
      hindex.present⟩
  right
  by_cases hmethod : r.method = .other
  · exact .inr ⟨hindex, .notAllowed, trivial, if_pos hmethod⟩
  rw [if_neg hmethod]
  by_cases hslash : r.uri.text.getLast? = some '/'
  · rw [if_pos hslash]
    obtain ⟨a, ha, heq⟩ | ⟨before', name, after, hnames, hbefore, hdir, hname, heq⟩ :=
      directoryIndex_cases disk (root.path r.uri) r.uri (before ++ ["index.php".toList])
    · exact .inr ⟨hindex, a, ha, heq⟩
    · refine .inl ⟨hindex, name, ?_, hslash, hname, heq⟩
      -- it is not the last one, `index.php`
      rcases List.eq_nil_or_concat after with rfl | ⟨after', last, rfl⟩
      · obtain ⟨rfl, hlast⟩ := List.append_inj' hnames rfl
        obtain rfl := List.singleton_inj.mp hlast
        exact absurd ⟨hslash, hmethod, hdir hne, hbefore, hname⟩ hindex
      · rw [List.concat_eq_append, ← List.cons_append, ← List.append_assoc] at hnames
        rw [(List.append_inj' hnames rfl).1]
        simp
  · rw [if_neg hslash]
    exact .inr ⟨hindex, _, ofFiles_staticFile disk _ _, rfl⟩

end AllInDocker
