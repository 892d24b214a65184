import AllInDocker.PhpRedisAdmin.Export
import AllInDocker.PhpRedisAdmin.Tree

/-!
The deletion of a folder of the tree, from the `tree` branch of `delete.php`.

The cross beside a folder asks for the deletion of the full key of the folder and a colon. The
script asks Redis for the keys that match this with a star after it, and deletes them one by one.

* `globs_star`: such a pattern stands for all that begins with the text before the star, unless
  that has one of the characters that mean something in a pattern.
* `deleteTree_folder`: the keys that go are those inside the folder and those that are too long
  to be shown there. The tree afterwards has all the other links of the tree before.
-/

namespace AllInDocker

open PhpText

/-! ### The patterns of `KEYS` -/

/-- A piece of a pattern. -/
inductive Piece where
  | star
  | any
  | char (c : Char)
  | oneOf (negated : Bool) (ranges : List (Char × Char))

/-- The pieces of a pattern, from inside a bracket if one is open. -/
def pieces : Option (Bool × List (Char × Char)) → Text → List Piece
  | none, [] => []
  | none, '*' :: p => .star :: pieces none p
  | none, '?' :: p => .any :: pieces none p
  | none, '[' :: '^' :: p => pieces (some (true, [])) p
  | none, '[' :: p => pieces (some (false, [])) p
  | none, '\\' :: c :: p => .char c :: pieces none p
  | none, c :: p => .char c :: pieces none p
  | some (negated, ranges), [] => [.oneOf negated ranges]
  | some (negated, ranges), ']' :: p => .oneOf negated ranges :: pieces none p
  | some (negated, ranges), '\\' :: c :: p => pieces (some (negated, (c, c) :: ranges)) p
  | some (negated, ranges), c :: '-' :: d :: p => pieces (some (negated, (c, d) :: ranges)) p
  | some (negated, ranges), c :: p => pieces (some (negated, (c, c) :: ranges)) p

/-- If a piece that is no star stands for a character. -/
def Piece.fits (d : Char) : Piece → Bool
  | star => false
  | any => true
  | char c => c = d
  | oneOf negated ranges =>
      (ranges.any fun r => (r.1 ≤ d && d ≤ r.2) || (r.2 ≤ d && d ≤ r.1)) != negated

/-- If the pieces stand for a text, a star for any text. -/
def matchPieces : List Piece → Text → Bool
  | [], s => s = []
  | .star :: ps, s => s.tails.any (matchPieces ps)
  | _ :: _, [] => false
  | p :: ps, c :: s => p.fits c && matchPieces ps s

/-- If a key matches a pattern. -/
def globs (pattern key : Text) : Bool := matchPieces (pieces none pattern) key

/-- A text without the characters that mean something in a pattern. -/
def PlainText (w : Text) : Prop := ∀ c ∈ w, c ≠ '*' ∧ c ≠ '?' ∧ c ≠ '[' ∧ c ≠ '\\'

instance (w : Text) : Decidable (PlainText w) :=
  decidable_of_iff ((w.all fun c => c ≠ '*' ∧ c ≠ '?' ∧ c ≠ '[' ∧ c ≠ '\\') = true)
    (by simp [PlainText])

lemma pieces_plain {w : Text} (hw : PlainText w) (p : Text) :
    pieces none (w ++ p) = w.map .char ++ pieces none p := by
  induction w with
  | nil => rfl
  | cons c w ih =>
      obtain ⟨hstar, hany, hopen, hslash⟩ := hw c List.mem_cons_self
      have hrest := ih fun d hd => hw d (List.mem_cons_of_mem _ hd)
      rw [List.cons_append, List.map_cons, List.cons_append, ← hrest]
      simp [pieces, hopen, hslash]

/-- A plain text and a star match what begins with the text. -/
lemma globs_star {w : Text} (hw : PlainText w) (key : Text) :
    globs (w ++ ['*']) key = true ↔ w <+: key := by
  have hstar : ∀ s, matchPieces (pieces none ['*']) s = true := by
    intro s
    simp [pieces, matchPieces]
  rw [globs, pieces_plain hw]
  clear hw
  induction w generalizing key with
  | nil => simpa using hstar key
  | cons c w ih =>
      cases key with
      | nil => simp [matchPieces]
      | cons d s => simp [matchPieces, Piece.fits, ih, List.cons_prefix_cons]

/-! ### The links inside a folder -/

/-- The paths that go on after a path. -/
def beyond (p : List Text) (ps : List (List Text)) : List (List Text) :=
  ps.filter fun q => p <+: q ∧ p ≠ q

lemma beyond_nil (d : Names) : beyond [] d.paths = d.paths := by
  rw [beyond, List.filter_eq_self]
  intro q hq
  obtain ⟨name, -, hname⟩ := Names.head?_of_mem_paths hq
  have hne : ¬[] = q := by
    rintro rfl
    simp at hname
  simp [hne]

/-- Below the first name, its own array counts. -/
lemma beyond_cons {name : Text} {below rest : Names} (hnot : name ∉ rest.names) (p : List Text) :
    beyond (name :: p) (Names.cons name below rest).paths =
      (beyond p below.paths).map (name :: ·) := by
  have hrest : beyond (name :: p) rest.paths = [] := by
    rw [beyond, List.filter_eq_nil_iff]
    intro q hq
    obtain ⟨x, hx, hhead⟩ := Names.head?_of_mem_paths hq
    have hne : name ≠ x := fun h => hnot (h ▸ hx)
    cases q with
    | nil => simp
    | cons y q =>
        rw [List.head?_cons, Option.some.injEq] at hhead
        simp [List.cons_prefix_cons, hhead, hne]
  have hbelow : (below.paths.map (name :: ·)).filter (fun q => name :: p <+: q ∧ name :: p ≠ q) =
      (beyond p below.paths).map (name :: ·) := by
    rw [List.filter_map]
    exact congrArg _ (List.filter_congr fun q _ => by simp)
  rw [beyond] at hrest
  rw [beyond, Names.paths, Names.pathsAt, List.filter_append, List.filter_append, hrest, hbelow,
    List.append_nil]
  split_ifs <;> simp

/-- Through another name than the first, the rest of the array counts. -/
lemma beyond_rest {name x : Text} {below rest : Names} {p : List Text} (hp : p.head? = some x)
    (hx : x ≠ name) : beyond p (Names.cons name below rest).paths = beyond p rest.paths := by
  have hhere : (Names.pathsAt name below below.paths).filter (fun q => p <+: q ∧ p ≠ q) = [] := by
    rw [List.filter_eq_nil_iff]
    intro q hq
    have hhead := Names.head?_of_mem_pathsAt hq
    cases p <;> cases q <;> simp_all
  rw [beyond, Names.paths, List.filter_append, hhere, List.nil_append, beyond]

lemma folders_printItem (name fullkey : Text) (item : Names) (children rest : Shown) :
    (printItem name fullkey item children rest).folders =
      (if 0 < item.count then (fullkey, children.links) :: children.folders else []) ++
        rest.folders := by
  rw [printItem]
  split_ifs <;> simp [Shown.folders]

/-- An array with a name leads to a key. -/
lemma Names.Proper.exists_path {d : Names} (hd : d.Proper) (h : 0 < d.count) :
    ∃ q, q ∈ d.paths := by
  induction d with
  | nil => simp [Names.count] at h
  | key rest ih => exact ih hd h
  | cons name below rest ih _ =>
      obtain ⟨-, -, hne, hbelow, -⟩ := hd
      cases hmarked : below.hasMarker with
      | true => exact ⟨[name], by simp [Names.paths, Names.pathsAt, hmarked]⟩
      | false =>
          have hcount : 0 < below.count := by
            cases below with
            | nil => exact absurd rfl hne
            | key _ => simp [Names.hasMarker] at hmarked
            | cons name' _ _ => simp [Names.count, hbelow.1]
          obtain ⟨q, hq⟩ := ih hbelow hcount
          exact ⟨name :: q, by simp [Names.paths, Names.pathsAt, hq]⟩

/-- The folders of the children: each is at the end of a path that goes on to a key, and has the
links of the paths that go on after it. -/
lemma folders_printChildren (seperator fullkey : Text) {d : Names} (hd : d.Proper) :
    ∀ folder ∈ (printChildren seperator fullkey d).folders, ∃ p ≠ [],
      beyond p d.paths ≠ [] ∧ folder.1 = fullkeyOf seperator fullkey p ∧
      folder.2 = (beyond p d.paths).map (fullkeyOf seperator fullkey) := by
  induction d generalizing fullkey with
  | nil => simp [printChildren, Shown.folders]
  | key rest ih => exact ih fullkey hd
  | cons name below rest ihb ihr =>
      obtain ⟨hname, hnot, -, hbelow, hrest⟩ := hd
      intro folder hfolder
      rw [printChildren, if_neg hname, folders_printItem, List.mem_append] at hfolder
      rcases hfolder with hfolder | hfolder
      · split_ifs at hfolder with hcount
        · rcases List.mem_cons.mp hfolder with rfl | hfolder
          · -- the folder of the name itself
            refine ⟨[name], by simp, ?_, rfl, ?_⟩
            · rw [beyond_cons hnot, beyond_nil]
              obtain ⟨q, hq⟩ := hbelow.exists_path hcount
              simpa using List.ne_nil_of_mem hq
            · rw [beyond_cons hnot, beyond_nil, List.map_map, links_printChildren _ _ hbelow]
              rfl
          · -- a folder inside
            obtain ⟨p, -, hne, hkey, hlinks⟩ := ihb _ hbelow folder hfolder
            refine ⟨name :: p, by simp, ?_, hkey, ?_⟩
            · simpa [beyond_cons hnot] using hne
            · rw [beyond_cons hnot, List.map_map, hlinks]
              rfl
        · simp at hfolder
      · obtain ⟨p, hp, hne, hkey, hlinks⟩ := ihr _ hrest folder hfolder
        obtain ⟨q, hq⟩ := List.exists_mem_of_ne_nil _ hne
        obtain ⟨hq, hpre⟩ := List.mem_filter.mp hq
        obtain ⟨x, hx, hhead⟩ := Names.head?_of_mem_paths hq
        have hphead : p.head? = some x := by
          cases p <;> cases q <;> simp_all
        have hxn : x ≠ name := fun h => hnot (h ▸ hx)
        exact ⟨p, hp, by rwa [beyond_rest hphead hxn], hkey, by rw [beyond_rest hphead hxn, hlinks]⟩

/-! ### The deletion -/

/-- `DEL` -/
def Keyspace.del (db : Keyspace) (key : Text) : Keyspace := Function.update db key none

/-- The `tree` branch of `delete.php`, with the keys of the server as `KEYS` goes through
them. -/
def deleteTree (db : Keyspace) (listed : List Text) (tree : Text) : Keyspace :=
  (listed.filter (globs (tree ++ ['*']))).foldl Keyspace.del db

/-- What the cross beside a folder asks to delete. There is none beside a folder without a full
key. -/
def deltree (fullkey : Text) : Option Text :=
  if fullkey = [] then none else some (fullkey ++ [':'])

/-- All keys of a server. -/
def Lists (keys : List Text) (db : Keyspace) : Prop := ∀ key, key ∈ keys ↔ db key ≠ none

/-- Each key once, and after the keys that are a namespace of it. `sort` compares these as
strings. -/
def InOrder (seperator : Text) (keys : List Text) : Prop :=
  keys.Pairwise fun key later => key ≠ later ∧ ¬later ++ seperator <+: key

lemma InOrder.nodup {seperator : Text} {keys : List Text} (h : InOrder seperator keys) :
    keys.Nodup :=
  h.imp fun hkey => hkey.1

/-- No key begins with a colon or has `marker` as a part. -/
def Tidy (db : Keyspace) : Prop :=
  ∀ key, db key ≠ none → ¬[':'] <+: key ∧ marker ∉ explode [':'] key

lemma Keyspace.del_apply (db : Keyspace) (k key : Text) :
    db.del k key = if key = k then none else db key :=
  Function.update_apply db k none key

lemma foldl_del (ks : List Text) (db : Keyspace) (key : Text) :
    ks.foldl Keyspace.del db key = if key ∈ ks then none else db key := by
  induction ks generalizing db with
  | nil => simp
  | cons k ks ih =>
      rw [List.foldl_cons, ih, Keyspace.del_apply]
      by_cases hk : key = k <;> simp [hk]

/-- The keys that go are those that begin with the text. -/
lemma deleteTree_apply {db : Keyspace} {listed : List Text} (hlisted : Lists listed db)
    {tree : Text} (htree : PlainText tree) (key : Text) :
    deleteTree db listed tree key = if tree <+: key then none else db key := by
  rw [deleteTree, foldl_del]
  by_cases hmem : key ∈ listed
  · simp [hmem, globs_star htree]
  · have hnone : db key = none := by
      by_contra h
      exact hmem ((hlisted key).mpr h)
    simp [hmem, hnone]

/-- In this order no key is removed by a later one. -/
lemma lasting_eq_self {seperator : Text} (hsep : seperator ≠ []) {keys : List Text}
    (h : InOrder seperator keys) : lasting seperator keys = keys := by
  induction keys with
  | nil => rfl
  | cons key keys ih =>
      obtain ⟨hkey, hkeys⟩ := List.pairwise_cons.mp h
      rw [lasting, if_neg, ih hkeys]
      rw [List.any_eq_true]
      rintro ⟨later, hmem, hpre⟩
      obtain ⟨r, hr⟩ := of_decide_eq_true hpre
      obtain ⟨hne, hnot⟩ := hkey later hmem
      have htext := congrArg seperator.intercalate hr
      rw [intercalate_explode hsep] at htext
      cases r with
      | nil => exact hne (by rw [← htext, List.append_nil, intercalate_explode hsep])
      | cons w r =>
          rw [intercalate_append (explode_ne_nil _ _) (List.cons_ne_nil w r),
            intercalate_explode hsep] at htext
          exact hnot ⟨_, htext⟩

/-- The tree of a server with tidy keys. -/
lemma tree_of_tidy {db : Keyspace} (hdb : Tidy db) (maxkeylen : ℕ) {keys : List Text}
    (hkeys : Lists keys db) (horder : InOrder [':'] keys) :
    ∃ d, namespaces [':'] maxkeylen keys = some d ∧ d.Proper ∧
      d.paths.Perm ((fitting maxkeylen keys).map (explode [':'])) ∧
      (printNamespace [':'] d "Keys".toList []).links.Perm (fitting maxkeylen keys) := by
  obtain ⟨d, hd, hproper, hmarked, hperm⟩ :=
    paths_namespaces maxkeylen fun key hkey => (hdb key ((hkeys key).mp hkey)).2
  have hfitting : InOrder [':'] (fitting maxkeylen keys) := horder.sublist List.filter_sublist
  rw [lasting_eq_self (List.cons_ne_nil _ _) hfitting] at hperm
  refine ⟨d, hd, hproper, hperm, ?_⟩
  rw [links_printNamespace _ _ hproper hmarked]
  refine (hperm.map _).trans (.of_eq ?_)
  rw [List.map_map]
  refine (List.map_congr_left fun key hkey => ?_).trans (List.map_id _)
  have hmem := (hkeys key).mp (List.mem_filter.mp hkey).1
  exact (fullkeyOf_nil _ _).trans (linkOf_eq_self (List.cons_ne_nil _ _) (hdb key hmem).1)

/-- A path that goes on to a key has the text of its parts as its full key. -/
lemma fullkeyOf_of_tidy {key : Text} (hcolon : ¬[':'] <+: key) {p : List Text} (hp : p ≠ [])
    (hpre : p <+: explode [':'] key) (hne : p ≠ explode [':'] key) :
    fullkeyOf [':'] [] p = [':'].intercalate p := by
  obtain ⟨x, p, rfl⟩ := List.exists_cons_of_ne_nil hp
  have hx : x ≠ [] := by
    rintro rfl
    cases key with
    | nil =>
        obtain ⟨-, hnil⟩ := List.cons_prefix_cons.mp hpre
        exact hne (by rw [List.prefix_nil.mp hnil]; rfl)
    | cons c s =>
        obtain ⟨w, ws, hws⟩ := explode_cons hcolon
        rw [hws] at hpre
        exact absurd (List.cons_prefix_cons.mp hpre).1 (by simp)
  rw [fullkeyOf_nil, List.dropWhile_cons_of_neg (by simpa using hx)]

/-- The links inside a folder are the keys that begin with its full key and a colon. -/
lemma folder_of_tidy {keys : List Text} (hcolon : ∀ key ∈ keys, ¬[':'] <+: key) {d : Names}
    (hd : d.Proper) (hpaths : d.paths.Perm (keys.map (explode [':']))) {name f : Text}
    {inside : List Text}
    (hfolder : (f, inside) ∈ (printNamespace [':'] d name []).folders) (hf : f ≠ []) :
    inside ≠ [] ∧ inside.Perm (keys.filter (f ++ [':'] <+: ·)) := by
  have hchild : (f, inside) ∈ (printChildren [':'] [] d).folders := by
    rw [printNamespace, folders_printItem] at hfolder
    split_ifs at hfolder
    · simpa [Shown.folders, hf] using hfolder
    · simp [Shown.folders] at hfolder
  obtain ⟨p, hp, hne, hkey, hinside⟩ := folders_printChildren _ _ hd _ hchild
  -- a key below the folder shows what the parts of its path are
  obtain ⟨q, hq⟩ := List.exists_mem_of_ne_nil _ hne
  obtain ⟨hq, hpre⟩ := List.mem_filter.mp hq
  obtain ⟨key, hmem, rfl⟩ := List.mem_map.mp (hpaths.mem_iff.mp hq)
  obtain ⟨hpre, hstrict⟩ := of_decide_eq_true hpre
  have hparts : ∀ w ∈ p, ':' ∉ w := fun w hw => not_mem_of_mem_explode (hpre.subset hw)
  have htext : f = [':'].intercalate p :=
    hkey.trans (fullkeyOf_of_tidy (hcolon key hmem) hp hpre hstrict)
  have hbeyond : beyond p (keys.map (explode [':'])) =
      (keys.filter (f ++ [':'] <+: ·)).map (explode [':']) := by
    rw [beyond, List.filter_map]
    refine congrArg _ (List.filter_congr fun k _ => ?_)
    simp only [Function.comp_apply, htext, explode_beyond hp hparts]
  have hself : ∀ k ∈ keys.filter (f ++ [':'] <+: ·),
      fullkeyOf [':'] [] (explode [':'] k) = k := by
    intro k hk
    rw [fullkeyOf_nil]
    exact linkOf_eq_self (List.cons_ne_nil _ _) (hcolon k (List.mem_filter.mp hk).1)
  refine ⟨fun h => hne (List.map_eq_nil_iff.mp (hinside.symm.trans h)), ?_⟩
  calc inside
      = (beyond p d.paths).map (fullkeyOf [':'] []) := hinside
    List.Perm _ ((beyond p (keys.map (explode [':']))).map (fullkeyOf [':'] [])) :=
        (hpaths.filter _).map _
    _ = (keys.filter (f ++ [':'] <+: ·)).map fun k => fullkeyOf [':'] [] (explode [':'] k) := by
        rw [hbeyond, List.map_map]
        rfl
    _ = keys.filter (f ++ [':'] <+: ·) := by
        rw [List.map_congr_left hself, List.map_id']

/-- The cross beside a folder deletes the keys that begin with the full key of the folder and a
colon, and no others. Those that are not too long are the links inside, and there is one. The tree
of what is left has the other links. -/
theorem deleteTree_folder (maxkeylen : ℕ) (db : Keyspace) (hdb : Tidy db)
    (keys listed : List Text) (hkeys : Lists keys db) (horder : InOrder [':'] keys)
    (hlisted : Lists listed db) :
    ∃ d, namespaces [':'] maxkeylen keys = some d ∧
      (printNamespace [':'] d "Keys".toList []).links.Perm (fitting maxkeylen keys) ∧
      ∀ f inside tree, (f, inside) ∈ (printNamespace [':'] d "Keys".toList []).folders →
        deltree f = some tree → PlainText f →
        (∀ key, deleteTree db listed tree key = if tree <+: key then none else db key) ∧
        inside ≠ [] ∧ inside.Perm ((fitting maxkeylen keys).filter (tree <+: ·)) ∧
        ∀ keys', Lists keys' (deleteTree db listed tree) → InOrder [':'] keys' →
          ∃ d', namespaces [':'] maxkeylen keys' = some d' ∧
            (printNamespace [':'] d' "Keys".toList []).links.Perm
              ((printNamespace [':'] d "Keys".toList []).links.filter (· ∉ inside)) := by
  obtain ⟨d, hd, hproper, hpaths, hlinks⟩ := tree_of_tidy hdb maxkeylen hkeys horder
  refine ⟨d, hd, hlinks, ?_⟩
  intro f inside tree hfolder htree hplain
  rw [deltree] at htree
  split_ifs at htree with hf
  obtain rfl := (Option.some.inj htree).symm
  have hcolon : ∀ key ∈ fitting maxkeylen keys, ¬[':'] <+: key :=
    fun key hkey => (hdb key ((hkeys key).mp (List.mem_filter.mp hkey).1)).1
  obtain ⟨hne, hinside⟩ := folder_of_tidy hcolon hproper hpaths hfolder hf
  have hplain' : PlainText (f ++ [':']) := by
    intro c hc
    rcases List.mem_append.mp hc with hc | hc
    · exact hplain c hc
    · rw [List.mem_singleton.mp hc]
      decide
  have hdeleted := deleteTree_apply hlisted hplain'
  refine ⟨hdeleted, hne, hinside, ?_⟩
  intro keys' hkeys' horder'
  have hdb' : Tidy (deleteTree db listed (f ++ [':'])) := by
    intro key hkey
    rw [hdeleted] at hkey
    split_ifs at hkey with h
    · exact absurd rfl hkey
    · exact hdb key hkey
  obtain ⟨d', hd', -, -, hlinks'⟩ := tree_of_tidy hdb' maxkeylen hkeys' horder'
  refine ⟨d', hd', hlinks'.trans ((List.perm_ext_iff_of_nodup ?_ ?_).mpr ?_)⟩
  · exact horder'.nodup.filter _
  · exact (hlinks.nodup_iff.mpr (horder.nodup.filter _)).filter _
  · intro key
    have hkey : key ∈ keys' ↔ key ∈ keys ∧ ¬f ++ [':'] <+: key := by
      rw [hkeys', hdeleted, hkeys]
      split_ifs with h <;> simp [h]
    rw [List.mem_filter, hlinks.mem_iff, decide_eq_true_eq, hinside.mem_iff]
    simp only [fitting, List.mem_filter, decide_eq_true_eq, hkey]
    tauto

/-- The keys of a shop, and one that begins like them. -/
def shopKeys : List Text :=
  ["shop".toList, "shop:1".toList, "shop:2:tags".toList, "shopping".toList]

/-- The strings of these keys. -/
def shopServer : Keyspace := fun key => if key ∈ shopKeys then some (.string []) else none

lemma shopKeys_lists : Lists shopKeys shopServer := by
  intro key
  simp [shopServer]

/-- Without the folder `shop` the keys `shop` and `shopping` are left. -/
theorem deleteTree_of_shop :
    ∃ d, namespaces [':'] 100 shopKeys = some d ∧
      ("shop".toList, ["shop:1".toList, "shop:2:tags".toList]) ∈
        (printNamespace [':'] d "Keys".toList []).folders ∧
      (deleteTree shopServer shopKeys "shop:".toList "shop:1".toList).isNone ∧
      (deleteTree shopServer shopKeys "shop:".toList "shopping".toList).isSome := by
  have htidy : Tidy shopServer := by
    have hall : ∀ key ∈ shopKeys, ¬[':'] <+: key ∧ marker ∉ explode [':'] key := by
      decide +kernel
    exact fun key hkey => hall key ((shopKeys_lists key).mpr hkey)
  have horder : InOrder [':'] shopKeys := by
    unfold InOrder
    decide +kernel
  obtain ⟨d, hd, -, hfolder⟩ := deleteTree_folder 100 shopServer htidy shopKeys shopKeys
    shopKeys_lists horder shopKeys_lists
  have hinside : ∀ d', namespaces [':'] 100 shopKeys = some d' →
      ("shop".toList, ["shop:1".toList, "shop:2:tags".toList]) ∈
        (printNamespace [':'] d' "Keys".toList []).folders := by
    have h : ∃ d', namespaces [':'] 100 shopKeys = some d' ∧
        ("shop".toList, ["shop:1".toList, "shop:2:tags".toList]) ∈
          (printNamespace [':'] d' "Keys".toList []).folders := ⟨_, rfl, by decide +kernel⟩
    obtain ⟨e, he, hmem⟩ := h
    intro d' hd'
    rwa [← Option.some.inj (he.symm.trans hd')]
  have hplain : PlainText "shop".toList := by decide +kernel
  have hdeleted :=
    (hfolder _ _ "shop:".toList (hinside d hd) (by decide +kernel) hplain).1
  refine ⟨d, hd, hinside d hd, ?_, ?_⟩
  · exact (congrArg Option.isNone (hdeleted "shop:1".toList)).trans (by decide +kernel)
  · exact (congrArg Option.isSome (hdeleted "shopping".toList)).trans (by decide +kernel)

end AllInDocker
