import AllInDocker.Lib.PhpText

/-!
The tree of keys of phpRedisAdmin, from `index.php`.

`namespaces` goes through the keys in the order in which `sort` left them, takes each apart at
the separator and follows its parts through nested arrays, which it makes where they are missing;
the last part gets a new array, whatever was there. `printNamespace` prints the arrays, a link for
each key and a folder for each namespace.

* `paths_insertKey`: a key adds its own path and removes all that goes on after it.
* `links_eq`: whatever the order of the keys, the links are those of the keys that no later key
  is a namespace of, each once. A link leads to the key without the separators it begins with.
-/

namespace AllInDocker

open PhpText

/-! ### The arrays -/

/-- The name that says that a namespace is a key, too. -/
def marker : Text := "__phpredisadmin__".toList

/-- An array of names, in its order. A name has an array below it, or `marker` has `true`. -/
inductive Names where
  | nil
  | key (rest : Names)
  | cons (name : Text) (below rest : Names)
  deriving DecidableEq

namespace Names

/-- `isset($item['__phpredisadmin__'])` -/
def hasMarker : Names → Bool
  | nil => false
  | key _ => true
  | cons name _ rest => name = marker || rest.hasMarker

/-- `$d[name] = item` -/
def assign (name : Text) (item : Names) : Names → Names
  | nil => cons name item nil
  | key rest => if name = marker then cons name item rest else key (assign name item rest)
  | cons name' below rest =>
      if name' = name then cons name item rest else cons name' below (assign name item rest)

/-- The array that `$d = &$d[name]` leads to, made if it is not there. It is none where `true`
is used as an array. -/
def enter (name : Text) : Names → Option Names
  | nil => some nil
  | key rest => if name = marker then none else rest.enter name
  | cons name' below rest => if name' = name then some below else rest.enter name

/-- The number of names without `marker`. -/
def count : Names → ℕ
  | nil => 0
  | key rest => rest.count
  | cons name _ rest => (if name = marker then 0 else 1) + rest.count

end Names

/-- The loop over the parts of a key. -/
def insertKey : List Text → Names → Option Names
  | [], d => some d
  | [last], d => some (.assign last (.key .nil) d)
  | name :: name' :: parts, d => do
      let below ← d.enter name
      let item ← insertKey (name' :: parts) below
      return .assign name item d

/-- The loop over the keys. -/
def namespaces (seperator : Text) (maxkeylen : ℕ) (keys : List Text) : Option Names :=
  keys.foldlM (fun d key =>
      if maxkeylen < key.length then some d else insertKey (explode seperator key) d) Names.nil

/-! ### The page -/

/-- What is printed, in its order: links to keys, and folders with the number of their names and
what is printed inside. -/
inductive Shown where
  | nil
  | link (name fullkey : Text) (rest : Shown)
  | folder (name fullkey : Text) (count : ℕ) (inside rest : Shown)

/-- The body of `print_namespace`, with what it prints for the children. -/
def printItem (name fullkey : Text) (item : Names) (children rest : Shown) : Shown :=
  let folders := if 0 < item.count then .folder name fullkey item.count children rest else rest
  if item.hasMarker then .link name fullkey folders else folders

/-- `$childfullkey` -/
def childFullkey (seperator fullkey childname : Text) : Text :=
  if fullkey = [] then childname else fullkey ++ seperator ++ childname

/-- The loop of `print_namespace` over the children. -/
def printChildren (seperator fullkey : Text) : Names → Shown
  | .nil => .nil
  | .key rest => printChildren seperator fullkey rest
  | .cons name below rest =>
      if name = marker then printChildren seperator fullkey rest
      else
        printItem name (childFullkey seperator fullkey name) below
          (printChildren seperator (childFullkey seperator fullkey name) below)
          (printChildren seperator fullkey rest)

/-- `print_namespace` -/
def printNamespace (seperator : Text) (item : Names) (name fullkey : Text) : Shown :=
  printItem name fullkey item (printChildren seperator fullkey item) .nil

/-- The keys that the links lead to. -/
def Shown.links : Shown → List Text
  | nil => []
  | link _ fullkey rest => fullkey :: rest.links
  | folder _ _ _ inside rest => inside.links ++ rest.links

/-- The folders, each with the links inside. -/
def Shown.folders : Shown → List (Text × List Text)
  | nil => []
  | link _ _ rest => rest.folders
  | folder _ fullkey _ inside rest =>
      (fullkey, inside.links) :: (inside.folders ++ rest.folders)

/-! ### The paths of the keys -/

namespace Names

/-- The names without `marker`'s own. -/
def names : Names → List Text
  | nil => []
  | key rest => rest.names
  | cons name _ rest => name :: rest.names

/-- An array as the code makes them: a name is there at most once, none is `marker`, and no array
below is empty. -/
def Proper : Names → Prop
  | nil => True
  | key rest => rest.Proper
  | cons name below rest =>
      name ≠ marker ∧ name ∉ rest.names ∧ below ≠ nil ∧ below.Proper ∧ rest.Proper

/-- The paths that lead to keys through the names of an array, given what is below them. -/
def pathsAt (name : Text) (item : Names) (below : List (List Text)) : List (List Text) :=
  (if item.hasMarker then [[name]] else []) ++ below.map (name :: ·)

/-- The paths that lead to keys. -/
def paths : Names → List (List Text)
  | nil => []
  | key rest => rest.paths
  | cons name below rest => pathsAt name below below.paths ++ rest.paths

lemma head?_of_mem_pathsAt {name : Text} {item : Names} {below : List (List Text)}
    {p : List Text} (hp : p ∈ pathsAt name item below) : p.head? = some name := by
  rw [pathsAt, List.mem_append, List.mem_map] at hp
  rcases hp with hp | ⟨q, -, rfl⟩
  · split_ifs at hp <;> simp_all
  · rfl

lemma head?_of_mem_paths {d : Names} {p : List Text} (hp : p ∈ d.paths) :
    ∃ name ∈ d.names, p.head? = some name := by
  induction d with
  | nil => simp [paths] at hp
  | key rest ih => exact ih hp
  | cons name below rest _ ih =>
      rcases List.mem_append.mp hp with hp | hp
      · exact ⟨name, List.mem_cons_self, head?_of_mem_pathsAt hp⟩
      · obtain ⟨name', hmem, heq⟩ := ih hp
        exact ⟨name', List.mem_cons_of_mem _ hmem, heq⟩

/-- Assignment leaves `marker` as it was. -/
lemma hasMarker_assign {name : Text} (hname : name ≠ marker) (item d : Names) :
    (assign name item d).hasMarker = d.hasMarker := by
  induction d with
  | nil => simp [assign, hasMarker, hname]
  | key rest ih => simp [assign, hasMarker, hname]
  | cons name' below rest _ ih =>
      rw [assign]
      split_ifs with h
      · simp [hasMarker, h]
      · simp [hasMarker, ih]

lemma names_assign {name : Text} (hname : name ≠ marker) (item d : Names) {x : Text} :
    x ∈ (assign name item d).names ↔ x = name ∨ x ∈ d.names := by
  induction d with
  | nil => simp [assign, names]
  | key rest ih => simpa [assign, names, hname] using ih
  | cons name' below rest _ ih =>
      rw [assign]
      split_ifs with h
      · simp [names, h]
      · simp only [names, List.mem_cons, ih]
        tauto

lemma Proper.assign {name : Text} (hname : name ≠ marker) {item d : Names} (hne : item ≠ nil)
    (hitem : item.Proper) (hd : d.Proper) : (Names.assign name item d).Proper := by
  induction d with
  | nil => exact ⟨hname, List.not_mem_nil, hne, hitem, trivial⟩
  | key rest ih => simpa [Names.assign, Proper, hname] using ih hd
  | cons name' below rest _ ih =>
      obtain ⟨hname', hnot, hne', hbelow, hrest⟩ := hd
      rw [Names.assign]
      split_ifs with h
      · exact ⟨hname, h ▸ hnot, hne, hitem, hrest⟩
      · refine ⟨hname', ?_, hne', hbelow, ih hrest⟩
        rw [names_assign hname]
        exact fun hor => hor.elim h hnot

/-- Other names are not touched by what is asked of one. -/
lemma filter_pathsAt {name name' : Text} (h : name' ≠ name) (item : Names)
    (below : List (List Text)) :
    (pathsAt name' item below).filter (·.head? ≠ some name) = pathsAt name' item below := by
  rw [List.filter_eq_self]
  intro p hp
  simp [head?_of_mem_pathsAt hp, h]

/-- The paths through the other names, in an array that begins with the name. -/
lemma filter_paths_cons {name : Text} {below rest : Names} (hnot : name ∉ rest.names) :
    (cons name below rest).paths.filter (·.head? ≠ some name) = rest.paths := by
  have hgone : (pathsAt name below below.paths).filter (·.head? ≠ some name) = [] := by
    rw [List.filter_eq_nil_iff]
    intro p hp
    simp [head?_of_mem_pathsAt hp]
  have hstay : rest.paths.filter (·.head? ≠ some name) = rest.paths := by
    rw [List.filter_eq_self]
    intro p hp
    obtain ⟨x, hx, heq⟩ := head?_of_mem_paths hp
    have hne : x ≠ name := fun hxn => hnot (hxn ▸ hx)
    simp [heq, hne]
  rw [paths, List.filter_append, hgone, hstay, List.nil_append]

/-- The paths after an assignment: those through the name are those of the item. -/
lemma paths_assign {name : Text} (hname : name ≠ marker) (item : Names) {d : Names}
    (hd : d.Proper) :
    (assign name item d).paths.Perm
      (pathsAt name item item.paths ++ d.paths.filter (·.head? ≠ some name)) := by
  induction d with
  | nil => simp [assign, paths]
  | key rest ih => simpa [assign, paths, hname] using ih hd
  | cons name' below rest _ ih =>
      obtain ⟨-, hnot, -, -, hrest⟩ := hd
      rw [assign]
      split_ifs with h
      · subst h
        rw [filter_paths_cons hnot, paths]
      · rw [paths, paths, List.filter_append, filter_pathsAt h]
        exact ((ih hrest).append_left _).trans (List.perm_append_comm_assoc _ _ _)

/-- A name leads to what is below it in the array. -/
lemma enter_spec {name : Text} (hname : name ≠ marker) {d : Names} (hd : d.Proper) :
    ∃ below, d.enter name = some below ∧ below.Proper ∧
      d.paths.Perm (pathsAt name below below.paths ++ d.paths.filter (·.head? ≠ some name)) := by
  induction d with
  | nil => exact ⟨nil, rfl, trivial, by simp [paths, pathsAt, hasMarker]⟩
  | key rest ih => simpa [enter, paths, hname] using ih hd
  | cons name' below rest _ ih =>
      obtain ⟨-, hnot, -, hbelow, hrest⟩ := hd
      by_cases h : name' = name
      · subst h
        refine ⟨below, by simp [enter], hbelow, ?_⟩
        rw [filter_paths_cons hnot, paths]
      · obtain ⟨b, hb, hproper, hperm⟩ := ih hrest
        refine ⟨b, by simp [enter, h, hb], hproper, ?_⟩
        rw [paths, List.filter_append, filter_pathsAt h]
        exact (hperm.append_left _).trans (List.perm_append_comm_assoc _ _ _)

end Names

/-- The keys that are left when a key is set: those it is no namespace of. -/
def remaining (p : List Text) (ps : List (List Text)) : List (List Text) :=
  ps.filter fun q => ¬p <+: q

/-- A key with the name as its first part leaves the paths through other names. -/
lemma remaining_others (name : Text) (p : List Text) (ps : List (List Text)) :
    remaining (name :: p) (ps.filter (·.head? ≠ some name)) =
      ps.filter (·.head? ≠ some name) := by
  rw [remaining, List.filter_eq_self]
  intro q hq
  have hhead := (List.mem_filter.mp hq).2
  cases q with
  | nil => simp
  | cons x q =>
      simp only [List.cons_prefix_cons, not_and, decide_eq_true_eq] at hhead ⊢
      exact fun h => absurd (by simp [h]) hhead

lemma remaining_pathsAt (name : Text) {p : List Text} (hp : p ≠ []) (item : Names)
    (below : List (List Text)) :
    remaining (name :: p) (Names.pathsAt name item below) =
      Names.pathsAt name item (remaining p below) := by
  have hself : ¬name :: p <+: [name] := by simp [hp]
  have hmap : (below.map (name :: ·)).filter (fun q => ¬name :: p <+: q) =
      (below.filter fun q => ¬p <+: q).map (name :: ·) := by
    rw [List.filter_map]
    congr 1
    exact List.filter_congr fun q _ => by simp
  rw [Names.pathsAt, Names.pathsAt, remaining, List.filter_append, hmap]
  congr 1
  split_ifs <;> simp [hself]

/-- What one key does to the arrays: its path is there, and none that goes on after it. -/
lemma paths_insertKey {p : List Text} (hp : p ≠ []) (hmark : marker ∉ p) {d : Names}
    (hd : d.Proper) :
    ∃ d', insertKey p d = some d' ∧ d'.Proper ∧ d'.hasMarker = d.hasMarker ∧
      d'.paths.Perm (p :: remaining p d.paths) := by
  induction p generalizing d with
  | nil => exact absurd rfl hp
  | cons name p ih =>
      have hname : name ≠ marker := fun h => hmark (h ▸ List.mem_cons_self)
      cases p with
      | nil =>
          refine ⟨_, rfl, Names.Proper.assign hname (by simp) trivial hd,
            Names.hasMarker_assign hname _ d,
            (Names.paths_assign hname _ hd).trans ?_⟩
          have hhead : ∀ q : List Text, (¬[name] <+: q) = (q.head? ≠ some name) := by
            intro q
            cases q <;> simp [eq_comm]
          simp [Names.pathsAt, Names.hasMarker, Names.paths, remaining, hhead]
      | cons name' p =>
          obtain ⟨below, hbelow, hproper, hpaths⟩ := Names.enter_spec hname hd
          obtain ⟨item, hitem, hproper', hmarked, hperm⟩ :=
            ih (List.cons_ne_nil name' p) (fun h => hmark (List.mem_cons_of_mem _ h)) hproper
          have hne : item ≠ .nil := by
            rintro rfl
            exact absurd hperm.length_eq (by simp [Names.paths])
          refine ⟨.assign name item d, by simp [insertKey, hbelow, hitem],
            Names.Proper.assign hname hne hproper' hd, Names.hasMarker_assign hname item d,
            (Names.paths_assign hname item hd).trans ?_⟩
          have hthrough : (Names.pathsAt name item item.paths).Perm
              ((name :: name' :: p) ::
                Names.pathsAt name below (remaining (name' :: p) below.paths)) := by
            rw [Names.pathsAt, Names.pathsAt, hmarked]
            exact ((hperm.map _).append_left _).trans List.perm_middle
          have hremaining : (remaining (name :: name' :: p) d.paths).Perm
              (Names.pathsAt name below (remaining (name' :: p) below.paths) ++
                d.paths.filter (·.head? ≠ some name)) := by
            refine (hpaths.filter _).trans ?_
            rw [List.filter_append]
            exact .of_eq (congrArg₂ (· ++ ·) (remaining_pathsAt name (List.cons_ne_nil _ _) _ _)
              (remaining_others name _ _))
          exact (hthrough.append_right _).trans (hremaining.symm.cons _)

/-! ### The keys in any order -/

/-- The keys that no later one is a namespace of. -/
def lasting (seperator : Text) : List Text → List Text
  | [] => []
  | key :: keys =>
      if keys.any fun later => explode seperator later <+: explode seperator key then
        lasting seperator keys
      else key :: lasting seperator keys

/-- The keys that are not too long. -/
def fitting (maxkeylen : ℕ) (keys : List Text) : List Text :=
  keys.filter (·.length ≤ maxkeylen)

/-- What all the keys do to the arrays. -/
lemma paths_foldlM {seperator : Text} {maxkeylen : ℕ} {keys : List Text}
    (hkeys : ∀ key ∈ fitting maxkeylen keys, marker ∉ explode seperator key) {d : Names}
    (hd : d.Proper) :
    ∃ d', keys.foldlM (fun d key => if maxkeylen < key.length then some d
        else insertKey (explode seperator key) d) d = some d' ∧
      d'.Proper ∧ d'.hasMarker = d.hasMarker ∧
      d'.paths.Perm
        (d.paths.filter (fun q =>
            (fitting maxkeylen keys).all fun key => ¬explode seperator key <+: q) ++
          (lasting seperator (fitting maxkeylen keys)).map (explode seperator)) := by
  induction keys generalizing d with
  | nil => exact ⟨d, rfl, hd, rfl, by simp [fitting, lasting]⟩
  | cons key keys ih =>
      by_cases hlong : maxkeylen < key.length
      · have hfit : fitting maxkeylen (key :: keys) = fitting maxkeylen keys := by
          simp [fitting, hlong]
        rw [hfit] at hkeys ⊢
        simpa [hlong] using ih hkeys hd
      · have hfit : fitting maxkeylen (key :: keys) = key :: fitting maxkeylen keys := by
          simp [fitting, Nat.not_lt.mp hlong]
        rw [hfit] at hkeys ⊢
        obtain ⟨d₁, h₁, hproper, hmarked, hperm⟩ :=
          paths_insertKey (explode_ne_nil seperator key) (hkeys key List.mem_cons_self) hd
        obtain ⟨d', h', hproper', hmarked', hperm'⟩ :=
          ih (fun k hk => hkeys k (List.mem_cons_of_mem _ hk)) hproper
        refine ⟨d', ?_, hproper', hmarked'.trans hmarked, hperm'.trans ?_⟩
        · simp only [List.foldlM_cons, hlong, if_false]
          exact (congrArg (· >>= _) h₁).trans h'
        · have hold : (remaining (explode seperator key) d.paths).filter (fun q =>
              (fitting maxkeylen keys).all fun k => ¬explode seperator k <+: q) =
              d.paths.filter fun q =>
                (key :: fitting maxkeylen keys).all fun k => ¬explode seperator k <+: q := by
            rw [remaining, List.filter_filter]
            exact List.filter_congr fun q _ => by simp [Bool.and_comm]
          refine ((hperm.filter _).append_right _).trans ?_
          rw [List.filter_cons, hold, lasting]
          -- either a later key removes this one again or it stays
          by_cases hlater : (fitting maxkeylen keys).any
              fun later => explode seperator later <+: explode seperator key
          · rw [if_pos hlater, if_neg (by simpa using hlater)]
          · rw [if_neg hlater, if_pos (by simpa using hlater)]
            exact List.perm_middle.symm

/-! ### What is printed -/

/-- The full key at the end of a path. -/
def fullkeyOf (seperator fullkey : Text) (p : List Text) : Text :=
  p.foldl (childFullkey seperator) fullkey

/-- The text of a key without the separators it begins with. -/
def linkOf (seperator key : Text) : Text :=
  seperator.intercalate ((explode seperator key).dropWhile (· = []))

lemma Names.paths_eq_nil_of_count {d : Names} (hd : d.Proper) (h : d.count = 0) :
    d.paths = [] := by
  induction d with
  | nil => rfl
  | key rest ih => exact ih hd h
  | cons name below rest _ _ => simp [count, hd.1] at h

lemma links_printItem (name fullkey : Text) (item : Names) (children rest : Shown) :
    (printItem name fullkey item children rest).links =
      (if item.hasMarker then [fullkey] else []) ++
        (if 0 < item.count then children.links else []) ++ rest.links := by
  rw [printItem]
  split_ifs <;> simp [Shown.links]

/-- The links of the children are the full keys at the ends of the paths. -/
lemma links_printChildren (seperator : Text) (fullkey : Text) {d : Names} (hd : d.Proper) :
    (printChildren seperator fullkey d).links = d.paths.map (fullkeyOf seperator fullkey) := by
  induction d generalizing fullkey with
  | nil => rfl
  | key rest ih => exact ih fullkey hd
  | cons name below rest ihb ihr =>
      obtain ⟨hname, -, -, hbelow, hrest⟩ := hd
      have hinside : (if 0 < below.count then
          (printChildren seperator (childFullkey seperator fullkey name) below).links else []) =
          (below.paths.map (name :: ·)).map (fullkeyOf seperator fullkey) := by
        rw [ihb _ hbelow, List.map_map]
        split_ifs with hcount
        · rfl
        · rw [Names.paths_eq_nil_of_count hbelow (by omega)]
          rfl
      rw [printChildren, if_neg hname, links_printItem, hinside, ihr fullkey hrest, Names.paths,
        Names.pathsAt, List.map_append, List.map_append]
      congr 2
      split_ifs <;> rfl

lemma links_printNamespace (seperator name : Text) {d : Names} (hd : d.Proper)
    (hmarked : d.hasMarker = false) :
    (printNamespace seperator d name []).links = d.paths.map (fullkeyOf seperator []) := by
  rw [printNamespace, links_printItem, links_printChildren seperator [] hd]
  split_ifs with h hcount
  · simp_all
  · simp_all
  · simp [Shown.links]
  · simp [Shown.links, Names.paths_eq_nil_of_count hd (by omega)]

lemma fullkeyOf_of_ne_nil {seperator fullkey : Text} (h : fullkey ≠ []) (p : List Text) :
    fullkeyOf seperator fullkey p = seperator.intercalate (fullkey :: p) := by
  induction p generalizing fullkey with
  | nil => simp [fullkeyOf]
  | cons name p ih =>
      have hchild : childFullkey seperator fullkey name = fullkey ++ seperator ++ name := by
        rw [childFullkey, if_neg h]
      rw [fullkeyOf, List.foldl_cons, ← fullkeyOf, hchild, ih (by simp [h])]
      cases p with
      | nil => simp
      | cons name' p => simp [List.intercalate_cons_cons]

/-- The code adds no separator as long as the full key is empty. -/
lemma fullkeyOf_nil (seperator : Text) (p : List Text) :
    fullkeyOf seperator [] p = seperator.intercalate (p.dropWhile (· = [])) := by
  induction p with
  | nil => rfl
  | cons name p ih =>
      by_cases h : name = []
      · simpa [fullkeyOf, childFullkey, h] using ih
      · rw [List.dropWhile_cons_of_neg (by simpa using h), ← fullkeyOf_of_ne_nil h]
        simp [fullkeyOf, childFullkey]

lemma linkOf_eq_self {seperator key : Text} (hsep : seperator ≠ []) (h : ¬seperator <+: key) :
    linkOf seperator key = key := by
  cases key with
  | nil => rfl
  | cons c s =>
      obtain ⟨w, ws, hws⟩ := explode_cons h
      have hwhole : (explode seperator (c :: s)).dropWhile (· = []) =
          explode seperator (c :: s) := by
        rw [hws]
        rfl
      rw [linkOf, hwhole, intercalate_explode hsep]

/-- The arrays of the keys. -/
lemma paths_namespaces {seperator : Text} (maxkeylen : ℕ) {keys : List Text}
    (hkeys : ∀ key ∈ keys, marker ∉ explode seperator key) :
    ∃ d, namespaces seperator maxkeylen keys = some d ∧ d.Proper ∧ d.hasMarker = false ∧
      d.paths.Perm ((lasting seperator (fitting maxkeylen keys)).map (explode seperator)) :=
  paths_foldlM (fun key hkey => hkeys key (List.mem_filter.mp hkey).1) trivial

/-- The links of the tree lead to the keys that are not too long and that no later key is a
namespace of, once each. They leave out the separators that a key begins with. -/
theorem links_eq (seperator : Text) (maxkeylen : ℕ) (keys : List Text) (hsep : seperator ≠ [])
    (hkeys : ∀ key ∈ keys, marker ∉ explode seperator key) :
    (∃ d, namespaces seperator maxkeylen keys = some d ∧
      (printNamespace seperator d "Keys".toList []).links.Perm
        ((lasting seperator (fitting maxkeylen keys)).map (linkOf seperator))) ∧
    ∀ key, ¬seperator <+: key → linkOf seperator key = key := by
  obtain ⟨d, hd, hproper, hmarked, hperm⟩ := paths_namespaces maxkeylen hkeys
  refine ⟨⟨d, hd, ?_⟩, fun key => linkOf_eq_self hsep⟩
  rw [links_printNamespace seperator _ hproper hmarked]
  refine (hperm.map _).trans ?_
  rw [List.map_map]
  exact .of_eq (List.map_congr_left fun key _ => fullkeyOf_nil seperator _)

/-- In this order `shop` removes `shop:1`, and the link of `:news` leads to `news`. -/
theorem links_of_shop :
    ∃ d, namespaces [':'] 10 ["shop:1".toList, ":news".toList, "shop".toList,
        "shop:1:long".toList] = some d ∧
      (printNamespace [':'] d "Keys".toList []).links.Perm ["news".toList, "shop".toList] := by
  obtain ⟨⟨d, hd, hlinks⟩, -⟩ := links_eq [':'] 10 ["shop:1".toList, ":news".toList,
    "shop".toList, "shop:1:long".toList] (by decide) (by decide +kernel)
  have hlasting : (lasting [':'] (fitting 10 ["shop:1".toList, ":news".toList, "shop".toList,
      "shop:1:long".toList])).map (linkOf [':']) = ["news".toList, "shop".toList] := by
    decide +kernel
  exact ⟨d, hd, hlasting ▸ hlinks⟩

end AllInDocker
