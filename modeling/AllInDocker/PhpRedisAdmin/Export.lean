import AllInDocker.Lib.PhpText
import AllInDocker.Lib.Rewrite

/-!
`export.php` and `import.php` of phpRedisAdmin: the keys of a server as a text of commands, and
such a text executed.

`exportRedis` and `exportAll` write the text from what Redis replies for each key, in whatever
order it lists the keys and their parts; `importCommands` reads any text and sends the commands
it finds. An error of Redis ends the import.

* `importCommands_exportAll`: the import of an export executes the commands of the export, each
  with the carriage returns of its texts dropped and the newlines turned into blanks.
* `import_export`: on an empty server it gives back the keys that were exported, under their new
  names, if no text has a line end and no two of the names are the same.
-/

namespace AllInDocker

open PhpText Rewrite

/-! ### The server -/

/-- A score as Redis prints it. -/
structure Score where
  text : Text
  bare : Bare text

/-- The value of a key. Order counts in lists only. -/
inductive RedisValue where
  | string (s : Text)
  | hash (fields : Text → Option Text)
  | list (xs : List Text)
  | set (members : Text → Bool)
  | zset (scores : Text → Option Score)

/-- The keys of a server. -/
def Keyspace := Text → Option RedisValue

/-- The commands of `import.php`. -/
inductive ImportCommand where
  | set (key value : Text)
  | hSet (key field value : Text)
  | lPush (key value : Text)
  | rPush (key value : Text)
  | lSet (key index value : Text)
  | sAdd (key member : Text)
  | zAdd (key score member : Text)

/-- How Redis reads the numbers among the arguments. -/
structure Numbers where
  toIndex : Text → Option ℤ
  toScore : Text → Option Score

/-- No keys. -/
def Keyspace.empty : Keyspace := fun _ => none

/-- Another value for a key. -/
def Keyspace.put (db : Keyspace) (key : Text) (v : RedisValue) : Keyspace :=
  Function.update db key (some v)

/-- The place that an index of a list of some length means, from the end if it is negative. -/
def placeOf (length : ℕ) (i : ℤ) : Option ℕ :=
  if 0 ≤ i ∧ i < length then some i.toNat
  else if i < 0 ∧ 0 ≤ length + i then some (length + i).toNat
  else none

/-- What a command does, unless Redis replies with an error: a value of another type, a number
that is none, or an index out of range. -/
def ImportCommand.exec (num : Numbers) (db : Keyspace) : ImportCommand → Option Keyspace
  | .set key value => some (db.put key (.string value))
  | .hSet key field value =>
      match db key with
      | none => some (db.put key (.hash (Function.update (fun _ => none) field (some value))))
      | some (.hash fields) => some (db.put key (.hash (Function.update fields field (some value))))
      | _ => none
  | .lPush key value =>
      match db key with
      | none => some (db.put key (.list [value]))
      | some (.list xs) => some (db.put key (.list (value :: xs)))
      | _ => none
  | .rPush key value =>
      match db key with
      | none => some (db.put key (.list [value]))
      | some (.list xs) => some (db.put key (.list (xs ++ [value])))
      | _ => none
  | .lSet key index value =>
      match db key with
      | some (.list xs) =>
          ((num.toIndex index).bind (placeOf xs.length)).map fun i =>
            db.put key (.list (xs.set i value))
      | _ => none
  | .sAdd key member =>
      match db key with
      | none => some (db.put key (.set (Function.update (fun _ => false) member true)))
      | some (.set members) => some (db.put key (.set (Function.update members member true)))
      | _ => none
  | .zAdd key score member =>
      (num.toScore score).bind fun s =>
        match db key with
        | none => some (db.put key (.zset (Function.update (fun _ => none) member (some s))))
        | some (.zset scores) =>
            some (db.put key (.zset (Function.update scores member (some s))))
        | _ => none

/-! ### The export -/

/-- What Redis replies to `TYPE` and to the commands that read a value of this type. -/
inductive RedisReply where
  | string (s : Text)
  | hash (fields : List (Text × Text))
  | list (xs : List Text)
  | set (members : List Text)
  | zset (scores : List (Text × Score))
  | other

/-- `export_redis`, with the new name of the key. -/
def exportRedis (outputKey : Text) : RedisReply → Text
  | .string s => line [.bare "SET".toList (by decide), .quoted outputKey, .quoted s]
  | .hash fields =>
      fields.flatMap fun kv =>
        line [.bare "HSET".toList (by decide), .quoted outputKey, .quoted kv.1, .quoted kv.2]
  | .list xs =>
      xs.flatMap fun x => line [.bare "RPUSH".toList (by decide), .quoted outputKey, .quoted x]
  | .set members =>
      members.flatMap fun v => line [.bare "SADD".toList (by decide), .quoted outputKey, .quoted v]
  | .zset scores =>
      scores.flatMap fun vs =>
        line [.bare "ZADD".toList (by decide), .quoted outputKey, .bare vs.2.text vs.2.bare,
          .quoted vs.1]
  | .other => []

/-- `empty` of a text. -/
def isEmptyText (s : Text) : Bool := s = [] || s = ['0']

/-- `stripos($key, $filter) !== false`; nothing is found without a needle. -/
def found (filter key : Text) : Bool :=
  filter ≠ [] && key.tails.any ((filter.map Char.toLower).isPrefixOf <| ·.map Char.toLower)

/-- The key is exported. -/
def selected (filter : Option Text) (key : Text) : Bool := filter.all (found · key)

/-- The name under which it is. -/
def outputKey (filter transform : Option Text) (key : Text) : Text :=
  match filter, transform with
  | some f, some t => rewrite [(f, t)] key
  | _, _ => key

/-- The export of all keys, with a filter and a transformation. -/
def exportAll (filter transform : Option Text) (keys : List Text) (reply : Text → RedisReply) :
    Text :=
  (keys.filter (selected filter)).flatMap fun key =>
    exportRedis (outputKey filter transform key) (reply key)

/-! ### The import -/

/-- The command that the word at hand begins, by the words after it, and how many of these are its
arguments. Those that are missing are empty. -/
def commandOf (word : Text) (rest : List Text) : Option (ImportCommand × ℕ) :=
  let arg := fun i => rest.getD i []
  if word = "SET".toList then some (.set (arg 0) (arg 1), 2)
  else if word = "HSET".toList then some (.hSet (arg 0) (arg 1) (arg 2), 3)
  else if word = "LPUSH".toList then some (.lPush (arg 0) (arg 1), 2)
  else if word = "RPUSH".toList then some (.rPush (arg 0) (arg 1), 2)
  else if word = "LSET".toList then some (.lSet (arg 0) (arg 1) (arg 2), 3)
  else if word = "SADD".toList then some (.sAdd (arg 0) (arg 1), 2)
  else if word = "ZADD".toList then some (.zAdd (arg 0) (arg 1) (arg 2), 3)
  else none

/-- The loop over the words, with a number of them to skip: whether it comes to the end, and what
it leaves. -/
def importLoop (num : Numbers) : ℕ → List Text → Keyspace → Bool × Keyspace
  | _, [], db => (true, db)
  | n + 1, _ :: words, db => importLoop num n words db
  | 0, word :: words, db =>
      if isEmptyText word then importLoop num 0 words db
      else
        match commandOf (word.map Char.toUpper) words with
        | none => importLoop num 0 words db
        | some (c, n) =>
            match c.exec num db with
            | none => (false, db)
            | some db' => importLoop num n words db'

/-- `import.php` -/
def importCommands (num : Numbers) (commands : Text) (db : Keyspace) : Bool × Keyspace :=
  importLoop num 0 ((strGetcsv (oneLine commands ++ "    ".toList)).map stripslashes) db

/-! ### What the import of an export does -/

/-- Commands one after the other, until Redis replies with an error. -/
def execAll (num : Numbers) : List ImportCommand → Keyspace → Bool × Keyspace
  | [], db => (true, db)
  | c :: cs, db =>
      match c.exec num db with
      | none => (false, db)
      | some db' => execAll num cs db'

/-- The command with its texts on one line. -/
def ImportCommand.oneLined : ImportCommand → ImportCommand
  | .set key value => .set (oneLine key) (oneLine value)
  | .hSet key field value => .hSet (oneLine key) (oneLine field) (oneLine value)
  | .lPush key value => .lPush (oneLine key) (oneLine value)
  | .rPush key value => .rPush (oneLine key) (oneLine value)
  | .lSet key index value => .lSet (oneLine key) (oneLine index) (oneLine value)
  | .sAdd key member => .sAdd (oneLine key) (oneLine member)
  | .zAdd key score member => .zAdd (oneLine key) (oneLine score) (oneLine member)

/-- The lines of the export of a key, with the commands they stand for. -/
def exportedLines (outputKey : Text) : RedisReply → List (List Token × ImportCommand)
  | .string s =>
      [([.bare "SET".toList (by decide), .quoted outputKey, .quoted s], .set outputKey s)]
  | .hash fields => fields.map fun kv =>
      ([.bare "HSET".toList (by decide), .quoted outputKey, .quoted kv.1, .quoted kv.2],
        .hSet outputKey kv.1 kv.2)
  | .list xs => xs.map fun x =>
      ([.bare "RPUSH".toList (by decide), .quoted outputKey, .quoted x], .rPush outputKey x)
  | .set members => members.map fun v =>
      ([.bare "SADD".toList (by decide), .quoted outputKey, .quoted v], .sAdd outputKey v)
  | .zset scores => scores.map fun vs =>
      ([.bare "ZADD".toList (by decide), .quoted outputKey, .bare vs.2.text vs.2.bare,
        .quoted vs.1], .zAdd outputKey vs.2.text vs.1)
  | .other => []

/-- The commands of the export of a key. -/
def exported (outputKey : Text) (r : RedisReply) : List ImportCommand :=
  (exportedLines outputKey r).map Prod.snd

lemma exportRedis_eq (outputKey : Text) (r : RedisReply) :
    exportRedis outputKey r = (exportedLines outputKey r).flatMap (line ·.1) := by
  cases r <;> simp [exportRedis, exportedLines, List.flatMap_map]

/-- The words are read as the command. -/
def ReadAs (words : List Text) (c : ImportCommand) : Prop :=
  ∃ word args, words = word :: args ∧ isEmptyText word = false ∧
    ∀ rest, commandOf (word.map Char.toUpper) (args ++ rest) = some (c, args.length)

lemma readAs_exportedLines {outputKey : Text} {r : RedisReply} {p : List Token × ImportCommand}
    (hp : p ∈ exportedLines outputKey r) :
    ReadAs (p.1.map fun t => oneLine t.word) p.2.oneLined := by
  cases r with
  | string s =>
      obtain rfl := List.mem_singleton.mp hp
      exact ⟨_, _, rfl, by decide, fun rest => rfl⟩
  | hash fields =>
      obtain ⟨kv, -, rfl⟩ := List.mem_map.mp hp
      exact ⟨_, _, rfl, by decide, fun rest => rfl⟩
  | list xs =>
      obtain ⟨x, -, rfl⟩ := List.mem_map.mp hp
      exact ⟨_, _, rfl, by decide, fun rest => rfl⟩
  | set members =>
      obtain ⟨v, -, rfl⟩ := List.mem_map.mp hp
      exact ⟨_, _, rfl, by decide, fun rest => rfl⟩
  | zset scores =>
      obtain ⟨vs, -, rfl⟩ := List.mem_map.mp hp
      exact ⟨_, _, rfl, by decide, fun rest => rfl⟩
  | other => cases hp

/-- The lines are read as their words. -/
lemma strGetcsv_lines (ps : List (List Token × ImportCommand)) (rest : Text) :
    (strGetcsv (oneLine (ps.flatMap (line ·.1)) ++ rest)).map stripslashes =
      ps.flatMap (fun p => p.1.map fun t => oneLine t.word) ++
        (strGetcsv rest).map stripslashes := by
  induction ps with
  | nil => rfl
  | cons p ps ih =>
      rw [List.flatMap_cons, oneLine_append, List.append_assoc, strGetcsv_line, ih,
        List.flatMap_cons, List.append_assoc]

variable {num : Numbers} {db : Keyspace}

/-- The arguments of a command are skipped. -/
lemma importLoop_skip (args rest : List Text) :
    importLoop num args.length (args ++ rest) db = importLoop num 0 rest db := by
  induction args with
  | nil => rfl
  | cons a args ih => exact ih

/-- The words of commands are executed, if what follows them does nothing. -/
lemma importLoop_words {rest : List Text} (hrest : ∀ db, importLoop num 0 rest db = (true, db))
    (ps : List (List Token × ImportCommand))
    (hps : ∀ p ∈ ps, ReadAs (p.1.map fun t => oneLine t.word) p.2.oneLined) :
    importLoop num 0 (ps.flatMap (fun p => p.1.map fun t => oneLine t.word) ++ rest) db =
      execAll num (ps.map (·.2.oneLined)) db := by
  induction ps generalizing db with
  | nil => exact hrest db
  | cons p ps ih =>
      obtain ⟨word, args, hwords, hword, hcommand⟩ := hps p (by simp)
      rw [List.flatMap_cons, hwords, List.append_assoc, List.cons_append, importLoop, hword,
        if_neg Bool.false_ne_true, hcommand, List.map_cons, execAll]
      dsimp only
      cases p.2.oneLined.exec num db with
      | none => rfl
      | some db' => exact (importLoop_skip args _).trans (ih fun q hq => hps q (by simp [hq]))

/-- The import of an export executes the commands of the export, with their texts on one line. -/
lemma importCommands_exportAll (num : Numbers) (filter transform : Option Text)
    (keys : List Text) (reply : Text → RedisReply) (db : Keyspace) :
    importCommands num (exportAll filter transform keys reply) db =
      execAll num (((keys.filter (selected filter)).flatMap fun key =>
        exported (outputKey filter transform key) (reply key)).map ImportCommand.oneLined) db := by
  have htext : exportAll filter transform keys reply =
      ((keys.filter (selected filter)).flatMap fun key =>
        exportedLines (outputKey filter transform key) (reply key)).flatMap (line ·.1) := by
    simp only [exportAll, exportRedis_eq, List.flatMap_assoc]
  have hcommands : ((keys.filter (selected filter)).flatMap fun key =>
        exported (outputKey filter transform key) (reply key)).map ImportCommand.oneLined =
      ((keys.filter (selected filter)).flatMap fun key =>
        exportedLines (outputKey filter transform key) (reply key)).map (·.2.oneLined) := by
    simp only [exported, List.map_flatMap, List.map_map]
    rfl
  rw [importCommands, htext, strGetcsv_lines, hcommands]
  refine importLoop_words (fun db => rfl) _ fun p hp => ?_
  obtain ⟨key, -, hkey⟩ := List.mem_flatMap.mp hp
  exact readAs_exportedLines hkey

/-! ### The keys come back -/

/-- The reply lists the value: fields, members and scores once each, in some order, and there is
at least one. Redis reads a score as it prints it. -/
inductive Enumerates (num : Numbers) : RedisReply → RedisValue → Prop where
  | string (s : Text) : Enumerates num (.string s) (.string s)
  | hash {fields : List (Text × Text)} {f : Text → Option Text} (hne : fields ≠ [])
      (hnodup : (fields.map Prod.fst).Nodup) (h : ∀ k v, (k, v) ∈ fields ↔ f k = some v) :
      Enumerates num (.hash fields) (.hash f)
  | list {xs : List Text} (hne : xs ≠ []) : Enumerates num (.list xs) (.list xs)
  | set {members : List Text} {p : Text → Bool} (hne : members ≠ [])
      (h : ∀ v, v ∈ members ↔ p v = true) : Enumerates num (.set members) (.set p)
  | zset {scores : List (Text × Score)} {f : Text → Option Score} (hne : scores ≠ [])
      (hnodup : (scores.map Prod.fst).Nodup) (h : ∀ v s, (v, s) ∈ scores ↔ f v = some s)
      (hscore : ∀ vs ∈ scores, num.toScore vs.2.text = some vs.2) :
      Enumerates num (.zset scores) (.zset f)

/-- No line ends. -/
def Straight (s : Text) : Prop := ∀ c ∈ s, c ≠ '\r' ∧ c ≠ '\n'

instance (s : Text) : Decidable (Straight s) :=
  decidable_of_iff ((s.all fun c => c ≠ '\r' ∧ c ≠ '\n') = true) (by simp [Straight])

/-- The texts of a reply, without the scores. -/
def RedisReply.texts : RedisReply → List Text
  | .string s => [s]
  | .hash fields => fields.flatMap fun kv => [kv.1, kv.2]
  | .list xs => xs
  | .set members => members
  | .zset scores => scores.map Prod.fst
  | .other => []

/-- Without line ends the commands stay as they are. -/
lemma oneLined_exported {key : Text} {r : RedisReply} (hkey : Straight key)
    (hr : ∀ s ∈ r.texts, Straight s) :
    (exported key r).map ImportCommand.oneLined = exported key r := by
  have hline : ∀ {s : Text}, Straight s → oneLine s = s := fun hs => oneLine_eq_self hs
  refine (List.map_congr_left fun c hc => ?_).trans (List.map_id _)
  obtain ⟨p, hp, rfl⟩ := List.mem_map.mp hc
  cases r with
  | string s =>
      obtain rfl := List.mem_singleton.mp hp
      simp [ImportCommand.oneLined, hline hkey, hline (hr s (by simp [RedisReply.texts]))]
  | hash fields =>
      obtain ⟨kv, hkv, rfl⟩ := List.mem_map.mp hp
      have hk := hline (hr kv.1 (List.mem_flatMap.mpr ⟨kv, hkv, by simp⟩))
      have hv := hline (hr kv.2 (List.mem_flatMap.mpr ⟨kv, hkv, by simp⟩))
      simp [ImportCommand.oneLined, hline hkey, hk, hv]
  | list xs =>
      obtain ⟨x, hx, rfl⟩ := List.mem_map.mp hp
      simp [ImportCommand.oneLined, hline hkey, hline (hr x hx)]
  | set members =>
      obtain ⟨v, hv, rfl⟩ := List.mem_map.mp hp
      simp [ImportCommand.oneLined, hline hkey, hline (hr v hv)]
  | zset scores =>
      obtain ⟨vs, hvs, rfl⟩ := List.mem_map.mp hp
      have hv := hline (hr vs.1 (List.mem_map_of_mem hvs))
      simp [ImportCommand.oneLined, hline hkey, hv, oneLine_bare vs.2.bare]
  | other => cases hp

@[simp] lemma Keyspace.put_self (db : Keyspace) (key : Text) (v : RedisValue) :
    db.put key v key = some v := Function.update_self ..

lemma Keyspace.put_of_ne (db : Keyspace) {key k : Text} (v : RedisValue) (h : k ≠ key) :
    db.put key v k = db k := Function.update_of_ne h ..

lemma Keyspace.put_put (db : Keyspace) (key : Text) (v w : RedisValue) :
    (db.put key v).put key w = db.put key w := Function.update_idem ..

lemma Keyspace.put_eq_self {key : Text} {v : RedisValue} (h : db key = some v) :
    db.put key v = db := by
  unfold Keyspace.put
  rw [← h]
  exact Function.update_eq_self key db

section Parts

variable {γ ι : Type} {key : Text} (mk : γ → RedisValue) (add : γ → ι → γ) (zero : γ)
  {cmd : ι → ImportCommand}

/-- Commands that add parts to a value that is there. -/
lemma execAll_of_some {is : List ι}
    (hsome : ∀ i ∈ is, ∀ db g, db key = some (mk g) →
      (cmd i).exec num db = some (db.put key (mk (add g i)))) {g : γ} (hdb : db key = some (mk g)) :
    execAll num (is.map cmd) db = (true, db.put key (mk (is.foldl add g))) := by
  induction is generalizing db g with
  | nil => exact congrArg (true, ·) (Keyspace.put_eq_self hdb).symm
  | cons i is ih =>
      rw [List.map_cons, execAll, hsome i (by simp) db g hdb, List.foldl_cons]
      dsimp only
      rw [ih (fun j hj => hsome j (by simp [hj])) (Keyspace.put_self ..), Keyspace.put_put]

/-- Commands that make a value of its parts. -/
lemma execAll_of_none {is : List ι} (hne : is ≠ [])
    (hsome : ∀ i ∈ is, ∀ db g, db key = some (mk g) →
      (cmd i).exec num db = some (db.put key (mk (add g i))))
    (hnone : ∀ i ∈ is, ∀ db, db key = none →
      (cmd i).exec num db = some (db.put key (mk (add zero i)))) (hdb : db key = none) :
    execAll num (is.map cmd) db = (true, db.put key (mk (is.foldl add zero))) := by
  obtain ⟨i, is, rfl⟩ := List.exists_cons_of_ne_nil hne
  rw [List.map_cons, execAll, hnone i (by simp) db hdb, List.foldl_cons]
  dsimp only
  rw [execAll_of_some mk add (fun j hj => hsome j (by simp [hj])) (Keyspace.put_self ..),
    Keyspace.put_put]

end Parts

section Maps

variable {β : Type}

/-- One entry more. -/
def addEntry (g : Text → Option β) (kv : Text × β) : Text → Option β :=
  Function.update g kv.1 (some kv.2)

/-- Keys that are not among the pairs are left alone. -/
lemma foldl_addEntry_of_notMem {kvs : List (Text × β)} {k : Text} (hk : k ∉ kvs.map Prod.fst)
    (g : Text → Option β) : kvs.foldl addEntry g k = g k := by
  induction kvs generalizing g with
  | nil => rfl
  | cons kv kvs ih =>
      simp only [List.map_cons, List.mem_cons, not_or] at hk
      rw [List.foldl_cons, ih hk.2]
      exact Function.update_of_ne hk.1 ..

/-- Each pair is entered. -/
lemma foldl_addEntry_of_mem {kvs : List (Text × β)} (hnodup : (kvs.map Prod.fst).Nodup)
    {kv : Text × β} (hkv : kv ∈ kvs) (g : Text → Option β) :
    kvs.foldl addEntry g kv.1 = some kv.2 := by
  induction kvs generalizing g with
  | nil => cases hkv
  | cons kv' kvs ih =>
      rw [List.map_cons, List.nodup_cons] at hnodup
      rw [List.foldl_cons]
      rcases List.mem_cons.mp hkv with rfl | hkv
      · rw [foldl_addEntry_of_notMem hnodup.1]
        exact Function.update_self ..
      · exact ih hnodup.2 hkv _

/-- The map that a list of pairs adds up to. -/
lemma foldl_addEntry_eq {kvs : List (Text × β)} (hnodup : (kvs.map Prod.fst).Nodup)
    {f : Text → Option β} (h : ∀ k v, (k, v) ∈ kvs ↔ f k = some v) :
    kvs.foldl addEntry (fun _ => none) = f := by
  funext k
  cases hk : f k with
  | some v => exact foldl_addEntry_of_mem hnodup ((h k v).mpr hk) _
  | none =>
      refine foldl_addEntry_of_notMem (fun hmem => ?_) _
      obtain ⟨kv, hkv, rfl⟩ := List.mem_map.mp hmem
      rw [(h kv.1 kv.2).mp hkv] at hk
      cases hk

/-- One member more. -/
def addMember (p : Text → Bool) (v : Text) : Text → Bool := Function.update p v true

lemma foldl_addMember (members : List Text) (p : Text → Bool) (v : Text) :
    members.foldl addMember p v = (p v || decide (v ∈ members)) := by
  induction members generalizing p with
  | nil => simp
  | cons w members ih =>
      rw [List.foldl_cons, ih]
      by_cases hvw : v = w
      · subst hvw
        simp [addMember]
      · simp [addMember, hvw]

end Maps

/-- The commands of the export of a key make its value. -/
lemma execAll_exported {key : Text} {r : RedisReply} {v : RedisValue} (h : Enumerates num r v)
    (hdb : db key = none) : execAll num (exported key r) db = (true, db.put key v) := by
  cases h with
  | string s => rfl
  | hash hne hnodup h =>
      rw [← foldl_addEntry_eq hnodup h, exported, exportedLines, List.map_map]
      refine execAll_of_none .hash addEntry _ hne (fun kv _ db g hg => ?_)
        (fun kv _ db hnone => ?_) hdb
      · simp [ImportCommand.exec, hg, addEntry]
      · simp [ImportCommand.exec, hnone, addEntry]
  | @list xs hne =>
      have hfold : ∀ ys : List Text, xs.foldl (fun ys x => ys ++ [x]) ys = ys ++ xs := by
        clear hne
        induction xs with
        | nil => simp
        | cons x xs ih => simp only [List.foldl_cons, ih, List.append_assoc, List.singleton_append,
            implies_true]
      rw [exported, exportedLines, List.map_map]
      refine (execAll_of_none .list (fun ys x => ys ++ [x]) [] hne (fun x _ db g hg => ?_)
        (fun x _ db hnone => ?_) hdb).trans (by rw [hfold, List.nil_append])
      · simp [ImportCommand.exec, hg]
      · simp [ImportCommand.exec, hnone]
  | @set members p hne h =>
      have hfold : members.foldl addMember (fun _ => false) = p := by
        funext v
        rw [foldl_addMember, Bool.false_or]
        cases hp : p v with
        | true => exact decide_eq_true ((h v).mpr hp)
        | false => exact decide_eq_false fun hv => by simp [(h v).mp hv] at hp
      rw [← hfold, exported, exportedLines, List.map_map]
      refine execAll_of_none .set addMember _ hne (fun v _ db g hg => ?_)
        (fun v _ db hnone => ?_) hdb
      · simp [ImportCommand.exec, hg, addMember]
      · simp [ImportCommand.exec, hnone, addMember]
  | zset hne hnodup h hscore =>
      rw [← foldl_addEntry_eq hnodup h, exported, exportedLines, List.map_map]
      refine execAll_of_none .zset addEntry _ hne (fun vs hvs db g hg => ?_)
        (fun vs hvs db hnone => ?_) hdb
      · simp [ImportCommand.exec, hg, hscore vs hvs, addEntry]
      · simp [ImportCommand.exec, hnone, hscore vs hvs, addEntry]

/-- Commands that follow others. -/
lemma execAll_append {cs cs' : List ImportCommand} {db' : Keyspace}
    (h : execAll num cs db = (true, db')) :
    execAll num (cs ++ cs') db = execAll num cs' db' := by
  induction cs generalizing db with
  | nil => rw [List.nil_append, (Prod.mk.inj h).2]
  | cons c cs ih =>
      rw [execAll] at h
      rw [List.cons_append, execAll]
      cases hc : c.exec num db with
      | none =>
          rw [hc] at h
          cases h
      | some db₁ =>
          rw [hc] at h
          exact ih h

/-- The commands of the export of some keys make their values, under their new names. -/
lemma execAll_keys {ks : List Text} {rename : Text → Text} {reply : Text → RedisReply}
    {value : Text → RedisValue} (henum : ∀ k ∈ ks, Enumerates num (reply k) (value k))
    (hdistinct : (ks.map rename).Nodup) (hdb : ∀ k ∈ ks, db (rename k) = none) :
    (execAll num (ks.flatMap fun k => exported (rename k) (reply k)) db).1 = true ∧
    ∀ k', (execAll num (ks.flatMap fun k => exported (rename k) (reply k)) db).2 k' =
      ((ks.find? (rename · = k')).map value).or (db k') := by
  induction ks generalizing db with
  | nil => exact ⟨rfl, fun k' => rfl⟩
  | cons k ks ih =>
      rw [List.map_cons, List.nodup_cons] at hdistinct
      rw [List.flatMap_cons,
        execAll_append (execAll_exported (henum k (by simp)) (hdb k (by simp)))]
      have hne : ∀ k₁ ∈ ks, rename k₁ ≠ rename k := fun k₁ hk₁ heq =>
        hdistinct.1 (heq ▸ List.mem_map_of_mem hk₁)
      obtain ⟨hok, hkeys⟩ := @ih (db.put (rename k) (value k))
        (fun k₁ hk₁ => henum k₁ (by simp [hk₁])) hdistinct.2 fun k₁ hk₁ => by
          rw [Keyspace.put_of_ne _ _ (hne k₁ hk₁)]
          exact hdb k₁ (by simp [hk₁])
      refine ⟨hok, fun k' => ?_⟩
      rw [hkeys, List.find?_cons]
      by_cases hk' : rename k = k'
      · subst hk'
        have hnone : ks.find? (rename · = rename k) = none :=
          List.find?_eq_none.mpr fun k₁ hk₁ => by simpa using hne k₁ hk₁
        simp [hnone]
      · rw [Keyspace.put_of_ne _ _ (Ne.symm hk')]
        simp [hk']

/-- **The keys come back**: the import of an export of keys without line ends in them, on an empty
server, gives every exported key its value, under its new name, and nothing else. -/
theorem import_export (num : Numbers) (filter transform : Option Text) (keys : List Text)
    (reply : Text → RedisReply) (value : Text → RedisValue)
    (henum : ∀ k ∈ keys, Enumerates num (reply k) (value k))
    (hdistinct : ((keys.filter (selected filter)).map (outputKey filter transform)).Nodup)
    (hstraight : ∀ k ∈ keys.filter (selected filter),
      Straight (outputKey filter transform k) ∧ ∀ s ∈ (reply k).texts, Straight s) :
    (importCommands num (exportAll filter transform keys reply) .empty).1 = true ∧
    ∀ k', (importCommands num (exportAll filter transform keys reply) .empty).2 k' =
      ((keys.filter (selected filter)).find? (outputKey filter transform · = k')).map value := by
  have hsub : ∀ k ∈ keys.filter (selected filter), k ∈ keys := fun k hk => List.mem_of_mem_filter hk
  have hcommands : ((keys.filter (selected filter)).flatMap fun key =>
        exported (outputKey filter transform key) (reply key)).map ImportCommand.oneLined =
      (keys.filter (selected filter)).flatMap fun key =>
        exported (outputKey filter transform key) (reply key) := by
    rw [List.map_flatMap]
    exact List.flatMap_congr fun k hk =>
      oneLined_exported (hstraight k hk).1 (hstraight k hk).2
  rw [importCommands_exportAll, hcommands]
  have hkeys := @execAll_keys num .empty (keys.filter (selected filter))
    (outputKey filter transform) reply value (fun k hk => henum k (hsub k hk)) hdistinct
    fun _ _ => rfl
  exact ⟨hkeys.1, fun k' => by rw [hkeys.2, Keyspace.empty, Option.or_none]⟩

/-- Scores as they are printed, and no indices. -/
def plainNumbers : Numbers where
  toIndex := fun _ => none
  toScore := fun w => if h : Bare w then some ⟨w, h⟩ else none

/-- What is in a cart. -/
def cart (field : Text) : Option Text :=
  if field = "pen".toList then some "2".toList
  else if field = "ink \"red\"".toList then some "1".toList
  else none

/-- The keys `blog`, `Shop:"1"` and `shop:cart`, with a list, a string and a hash. -/
def shopReply (k : Text) : RedisReply :=
  if k = "blog".toList then .list ["a".toList, "b".toList]
  else if k = "shop:cart".toList then
    .hash [("ink \"red\"".toList, "1".toList), ("pen".toList, "2".toList)]
  else .string "it's a \\ or \"".toList

/-- Their values. -/
def shopValue (k : Text) : RedisValue :=
  if k = "blog".toList then .list ["a".toList, "b".toList]
  else if k = "shop:cart".toList then .hash cart
  else .string "it's a \\ or \"".toList

/-- Two fields of a hash. -/
lemma mem_pair_iff {a b : Text} (hab : a ≠ b) (x y k v : Text) : (k, v) ∈ [(b, y), (a, x)] ↔
    (if k = a then some x else if k = b then some y else none) = some v := by
  by_cases ha : k = a
  · subst ha
    simpa [hab] using eq_comm
  · by_cases hb : k = b
    · subst hb
      simpa [ha] using eq_comm
    · simp [ha, hb]

lemma enumerates_shop : ∀ k ∈ ["blog".toList, "Shop:\"1\"".toList, "shop:cart".toList],
    Enumerates plainNumbers (shopReply k) (shopValue k) := by
  intro k hk
  simp only [List.mem_cons, List.not_mem_nil, or_false] at hk
  rcases hk with rfl | rfl | rfl
  · exact Enumerates.list (by decide)
  · exact Enumerates.string _
  · exact Enumerates.hash (by decide) (by decide) (mem_pair_iff (by decide) _ _)

/-- The filter `shop` leaves out `blog`. It finds `Shop:"1"`, but the new name is put in for
`shop` only as it is written. -/
theorem import_export_of_shop :
    ((importCommands plainNumbers (exportAll (some "shop".toList) (some "store".toList)
      ["blog".toList, "Shop:\"1\"".toList, "shop:cart".toList] shopReply) .empty).1 = true ∧
    ∀ k', (importCommands plainNumbers (exportAll (some "shop".toList) (some "store".toList)
      ["blog".toList, "Shop:\"1\"".toList, "shop:cart".toList] shopReply) .empty).2 k' =
        if k' = "Shop:\"1\"".toList then some (.string "it's a \\ or \"".toList)
        else if k' = "store:cart".toList then some (.hash cart)
        else none) := by
  have hselected : ["blog".toList, "Shop:\"1\"".toList, "shop:cart".toList].filter
      (selected (some "shop".toList)) = ["Shop:\"1\"".toList, "shop:cart".toList] := by
    decide +kernel
  have hnames : outputKey (some "shop".toList) (some "store".toList) "Shop:\"1\"".toList =
      "Shop:\"1\"".toList ∧ outputKey (some "shop".toList) (some "store".toList)
        "shop:cart".toList = "store:cart".toList := by decide +kernel
  obtain ⟨hend, hkeys⟩ := import_export plainNumbers (some "shop".toList) (some "store".toList)
    ["blog".toList, "Shop:\"1\"".toList, "shop:cart".toList] shopReply shopValue enumerates_shop
    (by rw [hselected]; decide +kernel) (by rw [hselected]; decide +kernel)
  refine ⟨hend, fun k' => ?_⟩
  rw [hkeys, hselected, List.find?_cons, List.find?_cons, List.find?_nil, hnames.1, hnames.2]
  by_cases hstring : k' = "Shop:\"1\"".toList
  · subst hstring
    rfl
  · by_cases hcart : k' = "store:cart".toList
    · subst hcart
      rfl
    · rw [if_neg hstring, if_neg hcart, decide_eq_false (Ne.symm hstring),
        decide_eq_false (Ne.symm hcart)]
      rfl

end AllInDocker
