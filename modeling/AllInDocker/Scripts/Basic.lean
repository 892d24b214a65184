import AllInDocker.Lib.SharedVars
import AllInDocker.Wrapper.Basic

/-!
What the scripts `access_limit_by_specific_rules.lua` and `heartbeat.lua` are written in:
Lua with the global variables they assign without `local`, the methods of the table of
`redis.lua`, calls of Redis commands through the wrapper, and `ngx.req.read_body`.

`redis:new()` reinstalls one closure for each command in the table of the module, which all
scripts share; the closure remembers the name it was made for, and `redCall` looks it up
where Lua does.
-/

namespace AllInDocker

open Coro

/-- The variables all scripts of one worker share: the globals they assign, and the methods
in the table of `redis.lua`. -/
inductive GlobalVar where
  | clientToken
  | res
  | err
  | getFile
  | method (c : CommandName)
  deriving DecidableEq

/-- The values of a variable. Of the function `getFile` there is one source text, so all
that can differ is whether it is defined; a method is the closure of `do_command` for the
command it remembers. -/
@[reducible] def GlobalVar.Val : GlobalVar → Type
  | .clientToken => LuaVal
  | .res => LuaVal
  | .err => LuaVal
  | .getFile => Option Unit
  | .method _ => Option CommandName

/-- A text that may be absent, as Lua sees it. -/
def luaOption : Option String → LuaVal
  | some s => .str s
  | none => .nil

/-- Where a script hands control to the outside. -/
inductive ScriptCall where
  | red (c : Command)
  | readBody
  deriving DecidableEq

/-- What it gets back: the two values of `do_command`, or nothing. -/
@[reducible] def ScriptCall.Ans : ScriptCall → Type
  | .red _ => LuaVal × Option String
  | .readBody => Unit

/-- A script, or a part of one. -/
abbrev Script (α : Type) := VarProg GlobalVar.Val ScriptCall.Ans Stop α

namespace Script

/-- `ngx.exit(status)`: ends the request. -/
def ngxExit {α : Type} (status : ℕ) : Script α := halt (.exit status)

/-- An error raised by Lua: ends the request. -/
def raise {α : Type} : Script α := halt .luaError

/-- Continue with a value, or raise the error that left it undefined. -/
def orRaise {α : Type} : Option α → Script α
  | some a => ret a
  | none => raise

def getClientToken : Script LuaVal := getVar GlobalVar.clientToken

def setClientToken (v : LuaVal) : Script Unit := setVar GlobalVar.clientToken v

def getRes : Script LuaVal := getVar GlobalVar.res

def setRes (v : LuaVal) : Script Unit := setVar GlobalVar.res v

def setErr (v : LuaVal) : Script Unit := setVar GlobalVar.err v

def getGetFile : Script (Option Unit) := getVar GlobalVar.getFile

def setGetFile : Script Unit := setVar GlobalVar.getFile (some ())

def getMethod (c : CommandName) : Script (Option CommandName) := getVar (GlobalVar.method c)

def setMethod (c : CommandName) : Script Unit := setVar (GlobalVar.method c) (some c)

/-- `ngx.req.read_body()`. -/
def readBody : Script Unit := outside ScriptCall.readBody

/-- The loop of `redis:new()` over the table of commands. -/
def installMethods : List CommandName → Script Unit
  | [] => ret ()
  | c :: cs => (setMethod c).bind fun _ => installMethods cs

/-- `redis:new()`. -/
def redisNew : Script Unit := installMethods commands

/-- `red:cmd(...)`: look the method up and call the closure found there. -/
def redCall (c : Command) : Script (LuaVal × Option String) := do
  match ← getMethod c.name with
  | some name => outside (ScriptCall.red ⟨name, c.args⟩)
  | none => raise

/-! ### Scripts with variables of their own -/

variable {β : Type} {env : (x : GlobalVar) → x.Val}

/-- Every method of the module is the closure of its own name. -/
def Installed (env : (x : GlobalVar) → x.Val) : Prop :=
  ∀ c, env (.method c) = some c

lemma installed_update {x : GlobalVar} {v : x.Val} (h : Installed env)
    (hx : ∀ c, x ≠ .method c) : Installed (Function.update env x v) := by
  intro c
  rw [Function.update_of_ne (hx c).symm]
  exact h c

lemma localize_installMethods (cs : List CommandName) (f : Unit → Script β) :
    ∃ env', (∀ c, c ∈ cs ∨ env (.method c) = some c → env' (.method c) = some c) ∧
      localize env ((installMethods cs).bind f) = localize env' (f ()) := by
  induction cs generalizing env with
  | nil => exact ⟨env, fun c hc => by simpa using hc, rfl⟩
  | cons d cs ih =>
      obtain ⟨env', hm, heq⟩ := @ih (Function.update env (.method d) (some d))
      refine ⟨env', fun c hc => hm c ?_, heq⟩
      by_cases hcd : c = d
      · subst hcd
        exact Or.inr (Function.update_self ..)
      · rcases hc with hc | hc
        · exact Or.inl ((List.mem_cons.mp hc).resolve_left hcd)
        · right
          rw [Function.update_of_ne (by simpa using hcd)]
          exact hc

/-- After `redis:new()` all methods are installed, whatever the table held before. -/
lemma localize_redisNew (f : Unit → Script β) :
    ∃ env', Installed env' ∧ localize env (redisNew.bind f) = localize env' (f ()) := by
  obtain ⟨env', hm, heq⟩ := @localize_installMethods β env commands f
  exact ⟨env', fun c => hm c (Or.inl (mem_commands c)), heq⟩

/-- With the methods installed, `red:cmd(...)` is one call of that command. -/
lemma localize_redCall (h : Installed env) (c : Command)
    (f : LuaVal × Option String → Script β) :
    localize env ((redCall c).bind f) =
      call (ScriptCall.red c) fun a => localize env (f a) := by
  have hm := h c.name
  simp only [redCall, getMethod, getVar, outside, monad_bind_eq, perform_bind, call_bind,
    localize, hm]

end Script

end AllInDocker
