import AllInDocker.Scripts.Basic

/-!
`heartbeat.lua`: remembers for 300 s that a device has sent a `KeepAlive` message.

The script takes the body of the request from memory or, through the global function
`getFile`, from the temporary file it was written to. The JSON library `cjson` is not part of
the repository; it is a parameter, seen through what the script does with it.
-/

namespace AllInDocker

open Coro

/-- A value of a decoded message. A number is given by the text that `..` writes for it, which is
that of `%.14g`; different numbers may have the same. -/
inductive Decoded where
  | str (s : String)
  | num (text : String)
  | other

/-- `cjson.decode` of a text: `none` when it raises an error, else the decoded value as the
script uses it, by its fields; `none` where indexing it raises an error. -/
abbrev Decode := String → Option (String → Option Decoded)

/-- `v == s` for a text `s`. -/
def Decoded.eqStr (v : Decoded) (s : String) : Bool :=
  match v with
  | str t => t == s
  | _ => false

/-- `s..v`; `none` is the error Lua raises when `v` is neither a string nor a number. -/
def Decoded.concat (s : String) : Decoded → Option String
  | str t => some (s ++ t)
  | num t => some (s ++ t)
  | other => none

/-- What a heartbeat request brings: its method, its body as far as it is in memory, and the
file the body is in, with its text if it can be opened. -/
structure HeartbeatRequest where
  requestMethod : String
  bodyData : Option String := none
  bodyFile : Option (Option String) := none

namespace Script

/-- `getFile(file_name)`: the global is looked up when it is called, and `assert` raises an
error when the file cannot be opened. -/
def callGetFile (content : Option String) : Script String := do
  match ← getGetFile with
  | some () => orRaise content
  | none => raise

/-- The body: from memory, else from the file, else `nil`. -/
def bodyOf (req : HeartbeatRequest) : Script (Option String) :=
  match req.bodyData with
  | some data => ret (some data)
  | none =>
      match req.bodyFile with
      | some content => (callGetFile content).bind fun data => ret (some data)
      | none => ret none

/-- Remember the device. -/
def keepAlive (obj : String → Option Decoded) : Script Unit := do
  redisNew
  let deviceId ← orRaise (obj "DeviceId")
  let key ← orRaise (deviceId.concat "device_heartbeat:")
  let (r, e) ← redCall (.setEx key 1 300)
  setRes r
  setErr (luaOption e)

/-- The whole script. Decoding a missing body raises an error. -/
def heartbeat (decode : Decode) (req : HeartbeatRequest) : Script Unit := do
  if req.requestMethod ≠ "POST" then ngxExit 405
  setGetFile
  readBody
  let data ← bodyOf req
  let obj ← orRaise (data.bind decode)
  let name ← orRaise (obj "Name")
  if name.eqStr "KeepAlive" then keepAlive obj

end Script

end AllInDocker
