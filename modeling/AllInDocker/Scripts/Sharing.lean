import AllInDocker.Scripts.AccessLimit
import AllInDocker.Scripts.Heartbeat

/-!
All requests of one worker share the global variables of the scripts and the methods of the
table of `redis.lua`.

Every operation of the network and the reading of the body may suspend a request, so `yields`
takes each call of a command apart into the operations of `do_command`. `fixed` are the
variables to which all requests write the same value: the function `getFile` and the methods.
`accessLimit` and `heartbeat` read no other variable after a yield that follows their last
own write of it (`confined_accessLimit`, `confined_heartbeat`), which is the discipline of
`Coro.Confined`; therefore sharing makes no difference, `shared_globals_harmless`.
-/

namespace AllInDocker

open Coro

/-- Where a request may be suspended. -/
inductive YieldOp where
  | net (op : NetOp Command)
  | readBody

/-- What the request goes on with. -/
@[reducible] def YieldOp.Ans : YieldOp → Type
  | .net op => op.Ans
  | .readBody => Unit

/-- A call of a script as operations that may suspend it. `do_command` is run by the object
the script got from `redis:new()`. -/
def yields : (call : ScriptCall) → Coro YieldOp YieldOp.Ans Stop call.Ans
  | .red c =>
      (interp (fun op => perform (YieldOp.net op)) ((Wrapper.new {}).doCommand c)).bind fun r =>
        ret r.2
  | .readBody => perform YieldOp.readBody

/-- A request of the worker, by the script it runs. -/
inductive Job where
  | accessLimit (req : Request)
  | heartbeat (decode : Decode) (req : HeartbeatRequest)

/-- The script of a request. -/
def Job.script : Job → Script Unit
  | accessLimit req => Script.accessLimit req
  | heartbeat decode req => Script.heartbeat decode req

/-- The program of a request, down to the operations that may suspend it. -/
def Job.prog (job : Job) : VarProg GlobalVar.Val YieldOp.Ans Stop Unit := expand yields job.script

/-- The variables that have one value for all requests. -/
def fixed : (x : GlobalVar) → Option x.Val
  | .getFile => some (some ())
  | .method c => some (some c)
  | _ => none

namespace Script

variable {β : Type} {W : Set GlobalVar}

/-- All methods have been installed. -/
def Known (W : Set GlobalVar) : Prop := ∀ c, GlobalVar.method c ∈ W

lemma Known.inter (h : Known W) : Known (W ∩ {x | (fixed x).isSome}) := fun c => ⟨h c, rfl⟩

lemma Known.insert (h : Known W) (x : GlobalVar) : Known (insert x W) :=
  fun c => Set.mem_insert_of_mem _ (h c)

/-- With the methods installed the rest of a script is confined, whatever else it knows. -/
def Steady (p : Script β) : Prop := ∀ W, Known W → Confined fixed W p

lemma steady_ret (b : β) : Steady (ret b : Script β) := fun _ _ => trivial

lemma confined_installMethods (cs : List CommandName) {f : Unit → Script β}
    (hf : Confined fixed (W ∪ {x | ∃ c ∈ cs, x = .method c}) (f ())) :
    Confined fixed W ((installMethods cs).bind f) := by
  induction cs generalizing W with
  | nil => exact hf.mono (by simp)
  | cons c cs ih =>
      refine ⟨fun u hu => Option.some.inj hu, ih (hf.mono ?_)⟩
      rintro x (hx | ⟨d, hd, rfl⟩)
      · exact Or.inl (Set.mem_insert_of_mem _ hx)
      · rcases List.mem_cons.mp hd with rfl | hd
        · exact Or.inl (Set.mem_insert ..)
        · exact Or.inr ⟨d, hd, rfl⟩

lemma confined_redisNew {f : Unit → Script β} (hf : Steady (f ())) :
    Confined fixed W (redisNew.bind f) :=
  confined_installMethods commands (hf _ fun c => Or.inr ⟨c, mem_commands c, rfl⟩)

lemma confined_redCall (hW : Known W) (c : Command) {f : LuaVal × Option String → Script β}
    (hf : ∀ r, Confined fixed (W ∩ {x | (fixed x).isSome}) (f r)) :
    Confined fixed W ((redCall c).bind f) := by
  refine ⟨hW c.name, fun m => ?_⟩
  cases m with
  | none => trivial
  | some name => exact hf

lemma confined_setRes (v : LuaVal) {f : Unit → Script β}
    (hf : Confined fixed (insert .res W) (f ())) : Confined fixed W ((setRes v).bind f) :=
  ⟨fun _ hu => (nomatch hu), hf⟩

lemma confined_orRaise {α : Type} (o : Option α) {f : α → Script β}
    (hf : ∀ a, Confined fixed W (f a)) : Confined fixed W ((orRaise o).bind f) := by
  cases o with
  | none => trivial
  | some a => exact hf a

/-! ### The rate limiter -/

lemma steady_checkBlock (key : String) {f : Unit → Script β} (hf : Steady (f ())) :
    Steady ((checkBlock key).bind f) := by
  intro W hW
  rw [checkBlock, monad_bind_eq, bind_assoc]
  refine confined_redCall hW _ fun r => ?_
  dsimp only
  split_ifs
  · trivial
  · exact hf _ hW.inter

lemma steady_ban (key : String) {f : Unit → Script β} (hf : Steady (f ())) :
    Steady ((ban key).bind f) := by
  intro W hW
  rw [ban, monad_bind_eq, bind_assoc]
  exact confined_redCall hW _ fun r => confined_setRes _ (hf _ (hW.inter.insert _))

/-- The comparison reads `res`, which has been written since the last yield. -/
lemma confined_overLimit (hW : Known W) (hres : GlobalVar.res ∈ W) (maxFreq : ℕ)
    {f : Bool → Script β} (hf : ∀ b, Steady (f b)) :
    Confined fixed W ((overLimit maxFreq).bind f) := by
  rw [overLimit, monad_bind_eq, bind_assoc]
  exact ⟨hres, fun v => confined_orRaise _ fun b => hf b W hW⟩

/-- Counting leaves `res` written since the last yield. -/
lemma steady_countRequest (incrKey : String) {f : Unit → Script β}
    (hf : ∀ W, Known W → GlobalVar.res ∈ W → Confined fixed W (f ())) :
    Steady ((countRequest incrKey).bind f) := by
  intro W hW
  rw [countRequest, monad_bind_eq, bind_assoc]
  refine confined_redCall hW _ fun r => confined_setRes _ ⟨Set.mem_insert .., fun v => ?_⟩
  simp only [ret_bind]
  split_ifs
  · rw [monad_bind_eq, bind_assoc]
    refine confined_redCall (hW.inter.insert _) _ fun r' => confined_setRes _ ?_
    exact hf _ ((hW.inter.insert _).inter.insert _) (Set.mem_insert ..)
  · exact hf _ (hW.inter.insert _) (Set.mem_insert ..)

lemma steady_carriedBranch (incrKey blockKey ipKey : String) (maxFreq : ℕ) :
    Steady (carriedBranch incrKey blockKey ipKey maxFreq) := by
  refine steady_checkBlock _ (steady_checkBlock _ (steady_countRequest _ fun W hW hres => ?_))
  refine confined_overLimit hW hres _ fun b => ?_
  cases b with
  | false => exact steady_ret ()
  | true =>
      have hlast : Steady ((ban ipKey).bind ret) := steady_ban _ (steady_ret ())
      rw [bind_ret] at hlast
      exact steady_ban _ hlast

lemma steady_ipBranch (ip : String) : Steady (ipBranch ip) := by
  refine steady_checkBlock _ (steady_countRequest _ fun W hW hres => ?_)
  refine confined_overLimit hW hres _ fun b => ?_
  cases b with
  | false => exact steady_ret ()
  | true =>
      have hlast : Steady ((ban (ipBlockKey ip)).bind ret) := steady_ban _ (steady_ret ())
      rw [bind_ret] at hlast
      exact hlast

/-- The token branch reads `clientToken` before its first yield. -/
lemma confined_tokenBranch (hW : Known W) (htoken : GlobalVar.clientToken ∈ W) (ip : String) :
    Confined fixed W (tokenBranch ip) := by
  have hcarried : ∀ k k' k'', Confined fixed W (carriedBranch k k' k'' tokenMaxFreq) :=
    fun k k' k'' => steady_carriedBranch k k' k'' tokenMaxFreq W hW
  rw [tokenBranch]
  refine ⟨htoken, fun v => ?_⟩
  simp only [ret_bind, userKey, monad_bind_eq, bind_assoc]
  refine confined_orRaise _ fun k => ⟨htoken, fun v' => ?_⟩
  simp only [ret_bind]
  exact confined_orRaise _ fun k' => hcarried _ _ _

/-- The rate limiter is confined. -/
lemma confined_accessLimit (req : Request) : Confined fixed ∅ (accessLimit req) := by
  rw [accessLimit]
  refine confined_installMethods commands ⟨fun u hu => absurd hu.symm (Option.some_ne_none u),
    Set.mem_insert .., fun v => ?_⟩
  have hW : Known (insert GlobalVar.clientToken
      (∅ ∪ {x | ∃ c ∈ commands, x = GlobalVar.method c})) :=
    fun c => Or.inr (Or.inr ⟨c, mem_commands c, rfl⟩)
  have htoken := confined_tokenBranch hW (Set.mem_insert ..) req.clientIP
  simp only [ret_bind]
  cases v with
  | nil =>
      cases hcookie : req.httpCookie with
      | some cookie => exact steady_carriedBranch _ _ _ _ _ hW
      | none => exact steady_ipBranch _ _ hW
  | _ => exact htoken

/-! ### The heartbeat -/

lemma steady_keepAlive (obj : String → Option Decoded) : Confined fixed W (keepAlive obj) := by
  rw [keepAlive]
  refine confined_redisNew fun W hW => ?_
  refine confined_orRaise _ fun deviceId => confined_orRaise _ fun key => ?_
  refine confined_redCall hW _ fun r => confined_setRes _ ?_
  exact ⟨fun _ hu => (nomatch hu), trivial⟩

/-- The heartbeat is confined: it calls `getFile` after a yield, but all requests define the
same function. -/
lemma confined_heartbeat (decode : Decode) (req : HeartbeatRequest) :
    Confined fixed ∅ (heartbeat decode req) := by
  have hbody : ∀ {W : Set GlobalVar} {f : Option String → Script Unit},
      GlobalVar.getFile ∈ W → (∀ data, Confined fixed W (f data)) →
      Confined fixed W ((bodyOf req).bind f) := by
    intro W f hget hf
    rw [bodyOf]
    cases req.bodyData with
    | some data => exact hf _
    | none =>
        cases req.bodyFile with
        | none => exact hf _
        | some content =>
            rw [bind_assoc]
            refine ⟨hget, fun m => ?_⟩
            cases m with
            | none => trivial
            | some u => exact confined_orRaise _ fun data => hf _
  simp only [heartbeat, monad_bind_eq]
  split_ifs
  · trivial
  · refine ⟨fun u hu => Option.some.inj hu, fun _ => ?_⟩
    refine hbody ⟨Set.mem_insert .., rfl⟩ fun data => confined_orRaise _ fun obj =>
      confined_orRaise _ fun name => ?_
    split_ifs
    · exact steady_keepAlive obj
    · trivial

end Script

/-- Sharing the variables is harmless: any number of requests of one worker, suspended and
resumed in any order and for all replies, issue the same operations, hence the same commands,
and have the same left to do or the same end, as when each has the variables to itself and
gets the same replies. -/
theorem shared_globals_harmless (jobs : List Job) (replies : ℕ → ℕ → (op : YieldOp) → op.Ans)
    (shared own : (x : GlobalVar) → x.Val) (sched : List ℕ) (i : ℕ) :
    (runShared replies ⟨shared, jobs.map fun job => .start job.prog⟩ sched).threads[i]? =
      jobs[i]?.map fun job =>
        (runLocal (replies i) own (.start job.prog) (sched.count i)).2 := by
  have hconfined : ∀ p ∈ jobs.map Job.prog, Confined fixed ∅ p := by
    intro p hp
    obtain ⟨job, -, rfl⟩ := List.mem_map.mp hp
    refine Confined.expand yields ?_
    cases job with
    | accessLimit req => exact Script.confined_accessLimit req
    | heartbeat decode req => exact Script.confined_heartbeat decode req
  have hrun := runShared_eq_runLocal replies shared own hconfined sched i
  rw [List.map_map, List.getElem?_map, Option.map_map] at hrun
  exact hrun

end AllInDocker
