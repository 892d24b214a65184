import AllInDocker.Lib.Sed
import AllInDocker.Lib.Shell

/-!
`create_vh.sh`: a virtual host from the template `example.conf.example`.

`createVh` is the whole script, with the exits of its checks and the five commands that
`set -e` runs until one fails. Which of them fail is arbitrary, and so are the shell's
pathname expansion, which the unquoted operands of `cp` are subject to, and what `sed` makes
of a script that is more than a substitution.

* `AllOrNothing`: the script either does all of its work or none of it.
* `createVh_effects`: what it does. If it succeeds, the new file is the template with both
  names filled in at once, as long as the texts hold nothing that is special to `sed` and the
  host makes no further `ABS_PATH`; if it fails, exactly the work of the commands before the
  one that failed is left, and with the file there the next run is refused.
* `failed_reload_leaves_all`: it does not undo anything.
-/

namespace AllInDocker

open Shell Rewrite

/-! ### The script -/

/-- The files of the machine, and `/etc/hosts`, which no path that ends in `.conf` names. -/
structure Site where
  files : FilePath → Option (List Char)
  hosts : List Char

/-- The working directory and the shell's pathname expansion of a field. -/
structure SiteShell where
  cwd : FilePath
  glob : (FilePath → Option (List Char)) → Word → List Word

/-- Who runs the script, and what `read` stores at its prompts. -/
structure VhInputs where
  uid : ℕ
  containerName : Word
  host : Word
  absPath : Word
  absConfPath : Word

namespace VhInputs

variable (i : VhInputs)

/-- The container, `openresty` by default. -/
def container : Word := if i.containerName = [] then "openresty".toList else i.containerName

/-- `$abs_conf_path/$host.conf` -/
def confFile : Word := i.absConfPath ++ '/' :: (i.host ++ ".conf".toList)

/-- `$abs_conf_path/example.conf.example` -/
def template : Word := i.absConfPath ++ "/example.conf.example".toList

/-- The line of `/etc/hosts`. -/
def hostsLine : List Char := "127.0.0.1 ".toList ++ i.host ++ ['\n']

end VhInputs

/-- The name that stands for the host in the template. -/
def hostName : Word := "HOST_NAME".toList

/-- The name that stands for the path in the template. -/
def absPathName : Word := "ABS_PATH".toList

/-- The commands of the script that do the work. -/
inductive VhCommand where
  | cp
  | sedHost
  | sedPath
  | addHost
  | reload (container : Word)
  deriving DecidableEq

variable (m : SiteShell) (sed : Sed) (i : VhInputs)

/-- The fields of an unquoted expansion, after pathname expansion. -/
def SiteShell.expand (s : Site) (w : Word) : List Word := (fields w).flatMap (m.glob s.files)

/-- The file a word names. -/
def SiteShell.file (s : Site) (w : Word) : Option (List Char) := s.files (resolve m.cwd w)

/-- `cp`: the first operand to the second. More than two need a directory as the last one,
and there are only files here. -/
def SiteShell.cp (operands : List Word) (s : Site) : Option Site :=
  match operands with
  | [source, target] =>
      (m.file s source).map fun text =>
        { s with files := Function.update s.files (resolve m.cwd target) (some text) }
  | _ => none

/-- `sed -i "" script "file"` -/
def SiteShell.sedInPlace (script file : Word) (s : Site) : Option Site :=
  ((m.file s file).bind (sed.run script)).map fun text =>
    { s with files := Function.update s.files (resolve m.cwd file) (some text) }

/-- What a command does if it does not fail. -/
def VhCommand.effect : VhCommand → Site → Option Site
  | .cp, s => m.cp (m.expand s i.template ++ m.expand s i.confFile) s
  | .sedHost, s => m.sedInPlace sed (Sed.subst '+' hostName i.host) i.confFile s
  | .sedPath, s => m.sedInPlace sed (Sed.subst '+' absPathName i.absPath) i.confFile s
  | .addHost, s => some { s with hosts := s.hosts ++ i.hostsLine }
  | .reload _, s => some s

/-- The commands in their order; a command that fails changes nothing. -/
def vhCommands (fails : VhCommand → Bool) : List (VhCommand × (Site → Option Site)) :=
  [.cp, .sedHost, .sedPath, .addHost, .reload i.container].map fun c =>
    (c, fun s => if fails c then none else c.effect m sed i s)

/-- How the script ends. -/
inductive VhEnd where
  | notRoot
  | missing
  | present
  | failed (c : VhCommand)
  | finished
  deriving DecidableEq

/-- The exit status. The `exit` at a missing answer is that of the `echo` before it. -/
def VhEnd.status : VhEnd → ℕ
  | notRoot => 1
  | missing => 0
  | present => 1
  | failed _ => 1
  | finished => 0

/-- `create_vh.sh` -/
def createVh (fails : VhCommand → Bool) (s : Site) : VhEnd × Site :=
  if i.uid ≠ 0 then (.notRoot, s)
  else if i.host = [] then (.missing, s)
  else if i.absPath = [] then (.missing, s)
  else if i.absConfPath = [] then (.missing, s)
  else if (m.file s i.confFile).isSome then (.present, s)
  else
    match untilFailure (vhCommands m sed i fails) s with
    | (none, s') => (.finished, s')
    | (some c, s') => (.failed c, s')

/-! ### What it is for, and what it does -/

/-- The template with both names filled in at once. -/
def VhInputs.fill (i : VhInputs) (text : List Char) : List Char :=
  rewrite [(hostName, i.host), (absPathName, i.absPath)] text

/-- All of the work is done and the status is 0, or nothing is done. -/
def AllOrNothing (fails : VhCommand → Bool) (s : Site) : Prop :=
  ((createVh m sed i fails s).1.status = 0 → ∃ text, m.file s i.template = some text ∧
    m.file (createVh m sed i fails s).2 i.confFile = some (i.fill text) ∧
      (createVh m sed i fails s).2.hosts = s.hosts ++ i.hostsLine) ∧
  ((createVh m sed i fails s).1.status ≠ 0 →
    m.file (createVh m sed i fails s).2 i.confFile = none ∧
      (createVh m sed i fails s).2.hosts = s.hosts)

/-- The template after the first substitution. -/
def hostFilled (s : Site) : Option (List Char) :=
  (m.file s i.template).bind (sed.run (Sed.subst '+' hostName i.host))

/-- The template after both. -/
def pathFilled (s : Site) : Option (List Char) :=
  (hostFilled m sed i s).bind (sed.run (Sed.subst '+' absPathName i.absPath))

/-- The texts that are filled in as they are: they hold nothing special to `sed`, the two names
do not overlap in the template, and the host makes no further `ABS_PATH` in it. -/
structure VhInputs.Literal (i : VhInputs) (text : List Char) : Prop where
  host : Sed.Plain '+' i.host
  absPath : Sed.Plain '+' i.absPath
  apart : ¬ absPathName ++ hostName.tail <:+: text
  noFurther : occurrences absPathName (rewrite [(hostName, i.host)] text) =
    occurrences absPathName text

/-- What is in `s'` when the command `c` has failed in a run from `s`: the work of the
commands before it. The copy may have gone to another file if the host holds a pattern. -/
def LeftBy (s s' : Site) : VhCommand → Prop
  | .cp => s' = s
  | .sedHost =>
      (m.file s' i.confFile = m.file s i.template ∨
        m.file s' i.confFile = none ∧ m.expand s i.confFile ≠ [i.confFile]) ∧ s'.hosts = s.hosts
  | .sedPath =>
      (m.file s' i.confFile).isSome ∧ m.file s' i.confFile = hostFilled m sed i s ∧
        s'.hosts = s.hosts
  | .addHost =>
      (m.file s' i.confFile).isSome ∧ m.file s' i.confFile = pathFilled m sed i s ∧
        s'.hosts = s.hosts
  | .reload _ =>
      (m.file s' i.confFile).isSome ∧ m.file s' i.confFile = pathFilled m sed i s ∧
        s'.hosts = s.hosts ++ i.hostsLine

variable {m sed i} {s s' : Site} {fails : VhCommand → Bool}

/-- The file that `sed` has edited. -/
lemma sedInPlace_eq_some {script file : Word} (h : m.sedInPlace sed script file s = some s') :
    (m.file s' file).isSome ∧ m.file s' file = (m.file s file).bind (sed.run script) ∧
      s'.hosts = s.hosts := by
  obtain ⟨text, htext, rfl⟩ := Option.map_eq_some_iff.mp h
  have hfile : m.file { s with files := Function.update s.files (resolve m.cwd file) (some text) }
      file = some text := Function.update_self ..
  exact ⟨by rw [hfile]; rfl, by rw [hfile, htext], rfl⟩

/-- The copy goes to the new file, unless the host holds a pattern. -/
lemma cp_eq_some (htemplate : m.expand s i.template = [i.template])
    (hnew : m.file s i.confFile = none)
    (h : m.cp (m.expand s i.template ++ m.expand s i.confFile) s = some s') :
    LeftBy m sed i s s' .sedHost := by
  rw [htemplate] at h
  cases hconf : m.expand s i.confFile with
  | nil => simp [hconf, SiteShell.cp] at h
  | cons target rest =>
      cases rest with
      | cons w ws => simp [hconf, SiteShell.cp] at h
      | nil =>
          rw [hconf] at h
          obtain ⟨text, htext, rfl⟩ := Option.map_eq_some_iff.mp h
          refine ⟨?_, rfl⟩
          by_cases htarget : resolve m.cwd i.confFile = resolve m.cwd target
          · left
            rw [htext, SiteShell.file, htarget]
            exact Function.update_self ..
          · right
            refine ⟨(Function.update_of_ne htarget ..).trans hnew, ?_⟩
            rw [hconf]
            rintro heq
            exact htarget (by rw [List.singleton_inj.mp heq])

/-- The first substitution, where the copy is. -/
lemma LeftBy.sedHost {s₁ s₂ : Site} (h : LeftBy m sed i s s₁ .sedHost)
    (hstep : VhCommand.sedHost.effect m sed i s₁ = some s₂) : LeftBy m sed i s s₂ .sedPath := by
  obtain ⟨hsome, hfile, hhosts⟩ := sedInPlace_eq_some hstep
  obtain ⟨hcopy | ⟨hnone, -⟩, hhosts₁⟩ := h
  · exact ⟨hsome, by rw [hfile, hcopy, hostFilled], hhosts.trans hhosts₁⟩
  · rw [hfile, hnone] at hsome
    cases hsome

/-- The second substitution. -/
lemma LeftBy.sedPath {s₁ s₂ : Site} (h : LeftBy m sed i s s₁ .sedPath)
    (hstep : VhCommand.sedPath.effect m sed i s₁ = some s₂) : LeftBy m sed i s s₂ .addHost := by
  obtain ⟨hsome, hfile, hhosts⟩ := sedInPlace_eq_some hstep
  exact ⟨hsome, by rw [hfile, h.2.1, pathFilled], hhosts.trans h.2.2⟩

/-- The line in `/etc/hosts`. -/
lemma LeftBy.addHost {s₁ s₂ : Site} (h : LeftBy m sed i s s₁ .addHost)
    (hstep : VhCommand.addHost.effect m sed i s₁ = some s₂) :
    LeftBy m sed i s s₂ (.reload i.container) := by
  obtain rfl := Option.some.inj hstep
  exact ⟨h.1, h.2.1, by rw [h.2.2]⟩

/-- The commands leave what they should, wherever they stop. -/
lemma leftBy_untilFailure (s' : Site) (htemplate : m.expand s i.template = [i.template])
    (hnew : m.file s i.confFile = none) :
    (∀ c, untilFailure (vhCommands m sed i fails) s = (some c, s') → LeftBy m sed i s s' c) ∧
      (untilFailure (vhCommands m sed i fails) s = (none, s') →
        LeftBy m sed i s s' (.reload i.container)) := by
  have hok : ∀ {c : VhCommand} {s₁ s₂ : Site},
      (if fails c then none else c.effect m sed i s₁) = some s₂ →
        c.effect m sed i s₁ = some s₂ :=
    fun h => (Option.ite_none_left_eq_some.mp h).2
  have hchain : Chained (fun c s' => LeftBy m sed i s s' c)
      (fun s' => LeftBy m sed i s s' (.reload i.container)) (vhCommands m sed i fails) := by
    simp only [vhCommands, List.map_cons, List.map_nil, Chained]
    refine ⟨?_, ?_, ?_, ?_, ?_⟩
    · rintro s₁ s₂ rfl hstep
      exact cp_eq_some htemplate hnew (hok hstep)
    · exact fun s₁ s₂ h hstep => h.sedHost (hok hstep)
    · exact fun s₁ s₂ h hstep => h.sedPath (hok hstep)
    · exact fun s₁ s₂ h hstep => h.addHost (hok hstep)
    · intro s₁ s₂ h hstep
      obtain rfl := Option.some.inj (hok hstep)
      exact h
  exact untilFailure_of_chained _ _ hchain rfl

/-- No `HOST_NAME` begins inside an `ABS_PATH` of a text in which they do not overlap. -/
lemma occurrences_hostName_append {text u : List Char}
    (h : ¬ absPathName ++ hostName.tail <:+: text) (hu : absPathName ++ u <:+ text) :
    occurrences hostName (absPathName ++ u) = occurrences hostName u := by
  have hsplit : absPathName ++ u = "ABS_PAT".toList ++ 'H' :: u := rfl
  have hhead : ¬ hostName <+: 'H' :: u := by
    rintro ⟨v, hv⟩
    obtain rfl : hostName.tail ++ v = u := (List.cons.inj hv).2
    rw [← List.append_assoc] at hu
    exact h ((List.prefix_append _ v).isInfix.trans hu.isInfix)
  rw [hsplit, occurrences_append_of_notWithin (by decide), occurrences, if_neg hhead, zero_add]

/-- Literal texts are filled in at once. -/
lemma pathFilled_of_literal {text : List Char} (htext : m.file s i.template = some text)
    (h : i.Literal text) : pathFilled m sed i s = some (i.fill text) := by
  have hhost : hostFilled m sed i s = some (rewrite [(hostName, i.host)] text) := by
    rw [hostFilled, htext, Option.bind_some]
    exact sed.run_subst (by decide) (by decide) (by decide) h.host text
  rw [pathFilled, hhost, Option.bind_some,
    sed.run_subst (by decide) (by decide) (by decide) h.absPath, VhInputs.fill,
    (rewrite_rewrite (by decide) (by decide) (by decide) (by decide)
      fun u hu => occurrences_hostName_append h.apart hu).2 h.noFurther]

/-- With the file there, the script refuses to run. -/
lemma createVh_of_file (hhost : i.host ≠ []) (habs : i.absPath ≠ []) (hconf : i.absConfPath ≠ [])
    (hfile : m.file s i.confFile ≠ none) :
    (createVh m sed i fails s).1.status ≠ 0 ∧ (createVh m sed i fails s).2 = s := by
  have hsome : (m.file s i.confFile).isSome := Option.isSome_iff_ne_none.mpr hfile
  by_cases huid : i.uid ≠ 0
  · simp [createVh, huid, VhEnd.status]
  · simp [createVh, not_not.mp huid, hhost, habs, hconf, hsome, VhEnd.status]

/-- Without it, the script refuses anyone but root, or runs its commands as far as they go. -/
lemma createVh_cases (sed : Sed) (fails : VhCommand → Bool) (hhost : i.host ≠ [])
    (habs : i.absPath ≠ []) (hconf : i.absConfPath ≠ [])
    (htemplate : m.expand s i.template = [i.template]) (hnew : m.file s i.confFile = none) :
    (i.uid ≠ 0 ∧ createVh m sed i fails s = (.notRoot, s)) ∨
      (∃ c s', createVh m sed i fails s = (.failed c, s') ∧ LeftBy m sed i s s' c) ∨
      ∃ s', createVh m sed i fails s = (.finished, s') ∧
        LeftBy m sed i s s' (.reload i.container) := by
  by_cases huid : i.uid = 0
  · right
    obtain ⟨stop, s', hrun⟩ : ∃ stop s', untilFailure (vhCommands m sed i fails) s = (stop, s') :=
      ⟨_, _, rfl⟩
    obtain ⟨hfailed, hfinished⟩ := leftBy_untilFailure s' htemplate hnew
    cases stop with
    | none =>
        exact .inr ⟨s', by simp [createVh, huid, hhost, habs, hconf, hnew, hrun], hfinished hrun⟩
    | some c =>
        exact .inl ⟨c, s', by simp [createVh, huid, hhost, habs, hconf, hnew, hrun],
          hfailed c hrun⟩
  · exact .inl ⟨huid, by simp [createVh, huid]⟩

/-- What `create_vh.sh` does, wherever it fails. -/
theorem createVh_effects (m : SiteShell) (sed : Sed) (i : VhInputs) (fails : VhCommand → Bool)
    (s : Site) (hhost : i.host ≠ []) (habs : i.absPath ≠ []) (hconf : i.absConfPath ≠ [])
    (htemplate : m.expand s i.template = [i.template]) (hnew : m.file s i.confFile = none) :
    ((createVh m sed i fails s).1.status = 0 →
      (createVh m sed i fails s).2.hosts = s.hosts ++ i.hostsLine ∧
        ∃ text, m.file s i.template = some text ∧ (i.Literal text →
          m.file (createVh m sed i fails s).2 i.confFile = some (i.fill text))) ∧
    ((createVh m sed i fails s).1.status ≠ 0 →
      i.uid ≠ 0 ∧ (createVh m sed i fails s).2 = s ∨
        ∃ c, (createVh m sed i fails s).1 = .failed c ∧
          LeftBy m sed i s (createVh m sed i fails s).2 c) ∧
    (m.file (createVh m sed i fails s).2 i.confFile ≠ none → ∀ fails',
      (createVh m sed i fails' (createVh m sed i fails s).2).1.status ≠ 0 ∧
        (createVh m sed i fails' (createVh m sed i fails s).2).2 =
          (createVh m sed i fails s).2) := by
  refine ⟨fun hstatus => ?_, fun hstatus => ?_,
    fun hfile fails' => createVh_of_file hhost habs hconf hfile⟩
  · obtain ⟨-, hend⟩ | ⟨c, s', hend, -⟩ | ⟨s', hend, hsome, hfile, hhosts⟩ :=
      createVh_cases sed fails hhost habs hconf htemplate hnew
    · simp [hend, VhEnd.status] at hstatus
    · simp [hend, VhEnd.status] at hstatus
    · rw [hend]
      refine ⟨hhosts, ?_⟩
      -- a filled-in file has come from a template
      cases htext : m.file s i.template with
      | none =>
          rw [hfile, pathFilled, hostFilled, htext] at hsome
          cases hsome
      | some text =>
          exact ⟨text, rfl, fun hliteral => hfile.trans (pathFilled_of_literal htext hliteral)⟩
  · obtain ⟨huid, hend⟩ | ⟨c, s', hend, hleft⟩ | ⟨s', hend, -⟩ :=
      createVh_cases sed fails hhost habs hconf htemplate hnew
    · exact .inl ⟨huid, by rw [hend]⟩
    · exact .inr ⟨c, by rw [hend], by rw [hend]; exact hleft⟩
    · simp [hend, VhEnd.status] at hstatus

/-! ### Two texts and a failure -/

/-- A shell in `/root`, for words without patterns. -/
def rootShell : SiteShell where
  cwd := ["root".toList]
  glob := fun _ w => [w]

/-- A `sed` that takes nothing but substitutions. -/
def strictSed : Sed := ⟨fun _ _ => none⟩

/-- Root asks for a virtual host in `/conf.d`. -/
def vhAt (host absPath : String) : VhInputs where
  uid := 0
  containerName := []
  host := host.toList
  absPath := absPath.toList
  absConfPath := "/conf.d".toList

/-- A machine with a short template. -/
def freshSite : Site where
  files := fun p => if p = ["conf.d".toList, "example.conf.example".toList] then
    some "name HOST_NAME;\nroot ABS_PATH;\n".toList else none
  hosts := "127.0.0.1 localhost\n".toList

/-- The new file of a run without a failure. -/
theorem createVh_effects_of_shop :
    (createVh rootShell strictSed (vhAt "shop.test" "/www/shop") (fun _ => false)
      freshSite).1.status = 0 ∧
    rootShell.file (createVh rootShell strictSed (vhAt "shop.test" "/www/shop") (fun _ => false)
      freshSite).2 (vhAt "shop.test" "/www/shop").confFile =
        some "name shop.test;\nroot /www/shop;\n".toList := by
  have hstatus : (createVh rootShell strictSed (vhAt "shop.test" "/www/shop") (fun _ => false)
      freshSite).1.status = 0 := by decide +kernel
  obtain ⟨-, text, htext, hfill⟩ := (createVh_effects rootShell strictSed
    (vhAt "shop.test" "/www/shop") (fun _ => false) freshSite (by decide) (by decide) (by decide)
    (by decide +kernel) (by decide +kernel)).1 hstatus
  obtain rfl : "name HOST_NAME;\nroot ABS_PATH;\n".toList = text :=
    Option.some.inj htext
  refine ⟨hstatus, (hfill ⟨?_, ?_, ?_, ?_⟩).trans ?_⟩ <;> decide +kernel

/-- A reload that fails leaves the file and the line in `/etc/hosts`; an `&` in the host becomes
`HOST_NAME`; and a host with `ABS_PATH` in it gets the path. -/
theorem failed_reload_leaves_all :
    ¬ AllOrNothing rootShell strictSed (vhAt "shop.test" "/www/shop")
        (fun c => c = .reload "openresty".toList) freshSite ∧
      ¬ AllOrNothing rootShell strictSed (vhAt "a&b.test" "/www/shop") (fun _ => false)
        freshSite ∧
      ¬ AllOrNothing rootShell strictSed (vhAt "ABS_PATH.test" "/www/shop") (fun _ => false)
        freshSite := by
  refine ⟨fun h => ?_, fun h => ?_, fun h => ?_⟩
  · exact absurd (h.2 (by decide +kernel)).1 (by decide +kernel)
  · obtain ⟨text, htext, hconf, -⟩ := h.1 (by decide +kernel)
    obtain rfl := Option.some.inj htext
    exact absurd hconf (by decide +kernel)
  · obtain ⟨text, htext, hconf, -⟩ := h.1 (by decide +kernel)
    obtain rfl := Option.some.inj htext
    exact absurd hconf (by decide +kernel)

end AllInDocker
