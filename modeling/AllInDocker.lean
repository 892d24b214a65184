import AllInDocker.Lib.Coroutine
import AllInDocker.Lib.SharedVars
import AllInDocker.Lib.Protocol
import AllInDocker.Lib.TimedStore
import AllInDocker.Lib.WindowCounter
import AllInDocker.Lib.Runs
import AllInDocker.Lib.Shell
import AllInDocker.Lib.Rewrite
import AllInDocker.Lib.Sed
import AllInDocker.Lib.Pcre
import AllInDocker.Lib.Locations
import AllInDocker.Lib.PhpText
import AllInDocker.Lua.Value
import AllInDocker.Redis.Command
import AllInDocker.Redis.Store
import AllInDocker.Redis.Session
import AllInDocker.Wrapper.Basic
import AllInDocker.Wrapper.Pipeline
import AllInDocker.Wrapper.Replies
import AllInDocker.Wrapper.Faults
import AllInDocker.Wrapper.Pool
import AllInDocker.Wrapper.Isolation.Protocol
import AllInDocker.Wrapper.Isolation.Steps
import AllInDocker.Wrapper.Isolation
import AllInDocker.Wrapper.Subscribe
import AllInDocker.Wrapper.Answers.Protocol
import AllInDocker.Wrapper.Answers.Frame
import AllInDocker.Wrapper.Answers.Steps
import AllInDocker.Wrapper.Answers
import AllInDocker.Scripts.Basic
import AllInDocker.Scripts.AccessLimit
import AllInDocker.Scripts.Heartbeat
import AllInDocker.Scripts.Sharing
import AllInDocker.Limiter.System
import AllInDocker.Limiter.Counters
import AllInDocker.Limiter.Bans
import AllInDocker.Limiter.Soundness
import AllInDocker.Limiter.Rate
import AllInDocker.Limiter.Expiry
import AllInDocker.Limiter.FailClosed
import AllInDocker.Presence.Basic
import AllInDocker.Tools.Backup
import AllInDocker.Tools.Calendar
import AllInDocker.Tools.Schedule
import AllInDocker.Tools.Restore
import AllInDocker.Tools.CreateVh
import AllInDocker.Tools.VirtualHosts
import AllInDocker.Openresty.Servers
import AllInDocker.Openresty.Routes
import AllInDocker.Openresty.Phases
import AllInDocker.Openresty.Requests
import AllInDocker.PhpRedisAdmin.Export
import AllInDocker.PhpRedisAdmin.Tree
import AllInDocker.PhpRedisAdmin.DeleteTree
