import AllInDocker.Scripts.Basic

/-!
`access_limit_by_specific_rules.lua`, the rate limiter.

* `accessLimit` is the script. Its token and cookie branches are the same text with other
  values (`carriedBranch`); the branch for direct access checks and bans the address only.
  In the branches `err` is the local of the block checks, so only `res` and `clientToken` are
  global there. The `SET` of the cookie branch is read with the comma that is missing before
  `banExpire`.
* `Limits` are the keys and the limit of a request, `Request.limits`; `Limits.checks`,
  `count`, `judge` and `bans` are the stages of a request as calls of commands only.
* `localize_accessLimit`: with variables of its own, the script is exactly these stages.
-/

namespace AllInDocker

open Coro

/-! ### The script -/

/-- What a request brings: the headers the script reads, each a string or absent, and the
address of the peer. -/
structure Request where
  authorization : Option String := none
  xRealIP : Option String := none
  xForwardedFor : Option String := none
  httpCookie : Option String := none
  remoteAddr : String
  deriving DecidableEq

/-- The address of the client: the first of the two headers that is there, else the peer. -/
def Request.clientIP (req : Request) : String :=
  match req.xRealIP with
  | some ip => ip
  | none =>
      match req.xForwardedFor with
      | some ip => ip
      | none => req.remoteAddr

def ipMaxFreq : ℕ := 9

def tokenMaxFreq : ℕ := 9

def cookieMaxFreq : ℕ := 9

def banExpire : ℤ := 600

namespace Script

/-- `left..v..right`. -/
def userKey (left : String) (v : LuaVal) (right : String) : Script String :=
  (orRaise (v.concat left)).bind fun s => ret (s ++ right)

/-- Read a block key, and refuse the request if it holds `1`. -/
def checkBlock (key : String) : Script Unit := do
  let (isBlock, _) ← redCall (.get key)
  if isBlock.tonumber = some 1 then ngxExit 403

/-- Count the request, and give a new counter its second to live. -/
def countRequest (incrKey : String) : Script Unit := do
  let (r, _) ← redCall (.incr incrKey)
  setRes r
  if (← getRes).eqNum 1 then
    let (r, _) ← redCall (.expire incrKey 1)
    setRes r

/-- `res > maxFreq`. -/
def overLimit (maxFreq : ℕ) : Script Bool := do
  orRaise ((← getRes).gtNum maxFreq)

/-- Write a block key. -/
def ban (key : String) : Script Unit := do
  let (r, _) ← redCall (.setEx key 1 banExpire)
  setRes r

/-- The branches for a request that carries a token or a cookie. -/
def carriedBranch (incrKey blockKey ipBlockKey : String) (maxFreq : ℕ) : Script Unit := do
  checkBlock blockKey
  checkBlock ipBlockKey
  countRequest incrKey
  if ← overLimit maxFreq then
    ban blockKey
    ban ipBlockKey

/-- The token branch, which reads the global `clientToken` for its keys. -/
def tokenBranch (clientIP : String) : Script Unit := do
  let incrKey ← userKey "user:" (← getClientToken) ":freq"
  let tokenBlockKey ← userKey "userToken:" (← getClientToken) ":block"
  let ipBlockKey := "userIp:" ++ clientIP ++ ":block"
  carriedBranch incrKey tokenBlockKey ipBlockKey tokenMaxFreq

/-- The cookie branch. -/
def cookieBranch (clientCookie clientIP : String) : Script Unit := do
  let incrKey := "user:" ++ clientCookie ++ ":freq"
  let cookieBlockKey := "userToken:" ++ clientCookie ++ ":block"
  let ipBlockKey := "userIp:" ++ clientIP ++ ":block"
  carriedBranch incrKey cookieBlockKey ipBlockKey cookieMaxFreq

/-- The branch for direct access. -/
def ipBranch (clientIP : String) : Script Unit := do
  let incrKey := "user:" ++ clientIP ++ ":freq"
  let blockKey := "userIp:" ++ clientIP ++ ":block"
  checkBlock blockKey
  countRequest incrKey
  if ← overLimit ipMaxFreq then
    ban blockKey

/-- The whole script. -/
def accessLimit (req : Request) : Script Unit := do
  redisNew
  setClientToken (luaOption req.authorization)
  match ← getClientToken with
  | .nil =>
      match req.httpCookie with
      | some clientCookie => cookieBranch clientCookie req.clientIP
      | none => ipBranch req.clientIP
  | _ => tokenBranch req.clientIP

end Script

/-! ### The stages of a request -/

/-- By what a request is known to the limiter. -/
inductive Kind where
  | token
  | cookie
  | ip
  deriving DecidableEq

/-- The branch a request takes and the string it is known by there. -/
def Request.identity (req : Request) : Kind × String :=
  match req.authorization with
  | some token => (.token, token)
  | none =>
      match req.httpCookie with
      | some cookie => (.cookie, cookie)
      | none => (.ip, req.clientIP)

/-- The counter of an identity; it does not depend on the kind. -/
def counterKey (v : String) : String := "user:" ++ v ++ ":freq"

/-- The block key of an address. -/
def ipBlockKey (ip : String) : String := "userIp:" ++ ip ++ ":block"

/-- The block key of a token or a cookie. -/
def tokenBlockKey (v : String) : String := "userToken:" ++ v ++ ":block"

/-- The block key of an identity. -/
def ownBlockKey : Kind × String → String
  | (.token, v) => tokenBlockKey v
  | (.cookie, v) => tokenBlockKey v
  | (.ip, v) => ipBlockKey v

/-- What the branch of a request works with: the block keys it checks and writes, in this
order, its counter and its limit. -/
structure Limits where
  blockKeys : List String
  incrKey : String
  maxFreq : ℕ

/-- The limits of a request. -/
def Request.limits (req : Request) : Limits :=
  match req.identity with
  | (.token, v) => ⟨[tokenBlockKey v, ipBlockKey req.clientIP], counterKey v, tokenMaxFreq⟩
  | (.cookie, v) => ⟨[tokenBlockKey v, ipBlockKey req.clientIP], counterKey v, cookieMaxFreq⟩
  | (.ip, v) => ⟨[ipBlockKey v], counterKey v, ipMaxFreq⟩

/-- The limit of a kind of identity. -/
def Kind.maxFreq : Kind → ℕ
  | token => tokenMaxFreq
  | cookie => cookieMaxFreq
  | ip => ipMaxFreq

/-- A block key, of either form. -/
def IsBlockKey (k : String) : Prop := ∃ v, k = tokenBlockKey v ∨ k = ipBlockKey v

namespace Request

lemma limits_incrKey (req : Request) : req.limits.incrKey = counterKey req.identity.2 := by
  rcases h : req.identity with ⟨_ | _ | _, v⟩ <;> simp [limits, h]

lemma limits_maxFreq (req : Request) : req.limits.maxFreq = req.identity.1.maxFreq := by
  rcases h : req.identity with ⟨_ | _ | _, v⟩ <;> simp [limits, h, Kind.maxFreq]

/-- A new counter is never over the limit. -/
lemma one_le_maxFreq (req : Request) : 1 ≤ req.limits.maxFreq := by
  rw [limits_maxFreq]
  cases req.identity.1 <;> decide

/-- A request checks, and writes, the block key of its own identity first. -/
lemma limits_blockKeys (req : Request) :
    req.limits.blockKeys = ownBlockKey req.identity :: req.limits.blockKeys.tail := by
  rcases h : req.identity with ⟨_ | _ | _, v⟩ <;> simp [limits, h, ownBlockKey]

lemma isBlockKey_of_mem (req : Request) {k : String} (hk : k ∈ req.limits.blockKeys) :
    IsBlockKey k := by
  rcases h : req.identity with ⟨_ | _ | _, v⟩ <;>
    simp only [limits, h, List.mem_cons, List.not_mem_nil, or_false] at hk
  · rcases hk with rfl | rfl
    · exact ⟨v, Or.inl rfl⟩
    · exact ⟨_, Or.inr rfl⟩
  · rcases hk with rfl | rfl
    · exact ⟨v, Or.inl rfl⟩
    · exact ⟨_, Or.inr rfl⟩
  · exact ⟨v, Or.inr hk⟩

end Request

lemma counterKey_inj {v w : String} : counterKey v = counterKey w ↔ v = w := by
  constructor
  · intro h
    simpa [counterKey] using h
  · rintro rfl
    rfl

/-- No string makes a counter a block key. -/
lemma counterKey_ne_of_isBlockKey {k v : String} (hk : IsBlockKey k) : counterKey v ≠ k := by
  rintro rfl
  obtain ⟨w, h | h⟩ := hk
  · have := congrArg String.toList h
    simp [counterKey, tokenBlockKey] at this
  · have := congrArg String.toList h
    simp [counterKey, ipBlockKey] at this

/-- A request as calls of commands only. -/
abbrev CommandProg := Coro ScriptCall ScriptCall.Ans Stop Unit

namespace Limits

variable (L : Limits)

/-- Write block keys, one after the other. -/
def bans : List String → CommandProg
  | [] => ret ()
  | k :: ks => call (.red (.setEx k 1 banExpire)) fun _ => bans ks

/-- Compare the counted value with the limit. -/
def judge (res : LuaVal) : CommandProg :=
  match res.gtNum L.maxFreq with
  | none => halt .luaError
  | some true => bans L.blockKeys
  | some false => ret ()

/-- Give the counter its second to live. -/
def expire : CommandProg := call (.red (.expire L.incrKey 1)) fun r => L.judge r.1

/-- Count the request. -/
def count : CommandProg :=
  call (.red (.incr L.incrKey)) fun r => if r.1.eqNum 1 then L.expire else L.judge r.1

/-- Check block keys, one after the other, and count if none holds `1`. -/
def checks : List String → CommandProg
  | [] => L.count
  | k :: ks =>
      call (.red (.get k)) fun r =>
        if r.1.tonumber = some 1 then halt (.exit 403) else checks ks

end Limits

namespace Script

variable {β : Type} {env : (x : GlobalVar) → x.Val}

lemma localize_checkBlock (h : Installed env) (key : String) (f : Unit → Script β) :
    localize env ((checkBlock key).bind f) = call (.red (.get key)) fun r =>
      if r.1.tonumber = some 1 then halt (.exit 403) else localize env (f ()) := by
  rw [checkBlock, monad_bind_eq, bind_assoc, localize_redCall h]
  congr 1
  funext r
  split_ifs with hb <;> simp [hb, ngxExit, localize]

lemma localize_setRes (v : LuaVal) (f : Unit → Script β) :
    localize env ((setRes v).bind f) = localize (Function.update env .res v) (f ()) := rfl

lemma localize_getRes (f : LuaVal → Script β) :
    localize env (getRes.bind f) = localize env (f (env .res)) := rfl

lemma localize_ban (h : Installed env) (key : String) (f : Unit → Script β) :
    ∃ g : LuaVal → (x : GlobalVar) → x.Val, (∀ v, Installed (g v)) ∧
      localize env ((ban key).bind f) =
        call (.red (.setEx key 1 banExpire)) fun r => localize (g r.1) (f ()) := by
  refine ⟨fun v => Function.update env .res v, fun v => installed_update h (by simp), ?_⟩
  rw [ban, monad_bind_eq, bind_assoc, localize_redCall h]
  rfl

/-- Comparing the counted value: the limit decides between the ban and the end. -/
lemma localize_overLimit (h : Installed env) {L : Limits} {thenBan : Script Unit}
    (hban : ∀ env', Installed env' → localize env' thenBan = Limits.bans L.blockKeys) :
    localize env ((overLimit L.maxFreq).bind fun b => if b then thenBan else ret ()) =
      L.judge (env .res) := by
  rw [overLimit, monad_bind_eq, bind_assoc, localize_getRes, Limits.judge]
  cases hgt : LuaVal.gtNum (env .res) L.maxFreq with
  | none => rfl
  | some b =>
      cases b with
      | false => rfl
      | true => exact hban env h

/-- Counting and comparing, with whatever writes the ban. -/
lemma localize_countRequest (h : Installed env) {L : Limits} {thenBan : Script Unit}
    (hban : ∀ env', Installed env' → localize env' thenBan = Limits.bans L.blockKeys) :
    localize env ((countRequest L.incrKey).bind fun _ =>
      (overLimit L.maxFreq).bind fun b => if b then thenBan else ret ()) = L.count := by
  rw [countRequest, monad_bind_eq, bind_assoc, localize_redCall h, Limits.count]
  congr 1
  funext r
  have h1 : Installed (Function.update env .res r.1) := installed_update h (by simp)
  simp only [monad_bind_eq, bind_assoc, localize_setRes, localize_getRes, Function.update_self]
  split_ifs with hone
  · -- a new counter: its expiry overwrites `res`
    rw [bind_assoc, localize_redCall h1, Limits.expire]
    congr 1
    funext r'
    have h2 : Installed (Function.update (Function.update env .res r.1) .res r'.1) :=
      installed_update h1 (by simp)
    simp only [localize_setRes, localize_overLimit h2 hban, Function.update_self]
  · simp only [monad_pure_eq, ret_bind, localize_overLimit h1 hban, Function.update_self]

/-- The two bans of the token and cookie branches. -/
lemma localize_bans_carried {blockKey ipKey : String} (env : (x : GlobalVar) → x.Val)
    (h : Installed env) :
    localize env (ban blockKey >>= fun _ => ban ipKey) = Limits.bans [blockKey, ipKey] := by
  obtain ⟨g, hg, heq⟩ := localize_ban h blockKey fun _ => ban ipKey
  rw [monad_bind_eq, heq, Limits.bans]
  congr 1
  funext r
  obtain ⟨g', -, heq'⟩ := localize_ban (hg r.1) ipKey ret
  rw [bind_ret] at heq'
  exact heq'

lemma localize_carriedBranch (h : Installed env) (incrKey blockKey ipKey : String)
    (maxFreq : ℕ) :
    localize env (carriedBranch incrKey blockKey ipKey maxFreq) =
      Limits.checks ⟨[blockKey, ipKey], incrKey, maxFreq⟩ [blockKey, ipKey] := by
  simp only [carriedBranch, monad_bind_eq, localize_checkBlock h, Limits.checks]
  congr 1
  funext r
  split_ifs
  · rfl
  · congr 1
    funext r'
    split_ifs
    · rfl
    · exact localize_countRequest (L := ⟨[blockKey, ipKey], incrKey, maxFreq⟩) h
        localize_bans_carried

lemma localize_ipBranch (h : Installed env) (ip : String) :
    localize env (ipBranch ip) =
      Limits.checks ⟨[ipBlockKey ip], counterKey ip, ipMaxFreq⟩ [ipBlockKey ip] := by
  simp only [ipBranch, monad_bind_eq, localize_checkBlock h, Limits.checks]
  congr 1
  funext r
  split_ifs
  · rfl
  · refine localize_countRequest (L := ⟨[ipBlockKey ip], counterKey ip, ipMaxFreq⟩) h
      fun env' h' => ?_
    obtain ⟨g, -, heq⟩ := localize_ban h' (ipBlockKey ip) ret
    rw [bind_ret] at heq
    exact heq

/-- With variables of its own the script is the stages of its request, whatever the
variables held before. -/
theorem localize_accessLimit (env : (x : GlobalVar) → x.Val) (req : Request) :
    localize env (accessLimit req) = req.limits.checks req.limits.blockKeys := by
  obtain ⟨env', h, heq⟩ := @localize_redisNew Unit env fun _ =>
    (setClientToken (luaOption req.authorization)).bind fun _ =>
      getClientToken.bind fun t => match t with
        | .nil =>
            match req.httpCookie with
            | some clientCookie => cookieBranch clientCookie req.clientIP
            | none => ipBranch req.clientIP
        | _ => tokenBranch req.clientIP
  rw [accessLimit, monad_bind_eq]
  refine heq.trans ?_
  have h1 : Installed (Function.update env' .clientToken (luaOption req.authorization)) :=
    installed_update h (by simp)
  cases hauth : req.authorization with
  | some token =>
      rw [hauth] at h1
      have hlim : req.limits =
          ⟨[tokenBlockKey token, ipBlockKey req.clientIP], counterKey token, tokenMaxFreq⟩ := by
        simp [Request.limits, Request.identity, hauth]
      rw [hlim]
      exact localize_carriedBranch h1 _ _ _ _
  | none =>
      rw [hauth] at h1
      cases hcookie : req.httpCookie with
      | some cookie =>
          have hlim : req.limits =
              ⟨[tokenBlockKey cookie, ipBlockKey req.clientIP], counterKey cookie,
                cookieMaxFreq⟩ := by
            simp [Request.limits, Request.identity, hauth, hcookie]
          rw [hlim]
          exact localize_carriedBranch h1 _ _ _ _
      | none =>
          have hlim : req.limits =
              ⟨[ipBlockKey req.clientIP], counterKey req.clientIP, ipMaxFreq⟩ := by
            simp [Request.limits, Request.identity, hauth, hcookie]
          rw [hlim]
          exact localize_ipBranch h1 _

end Script

end AllInDocker
