import AllInDocker.Lua.Value

/-!
The commands `redis.lua` exports and the replies a server gives to them, with the Lua values
`lua-resty-redis` makes of the replies.
-/

namespace AllInDocker

/-- The commands of the table `commands` of `redis.lua`, in its order. -/
inductive CommandName where
  | append | auth | bgrewriteaof | bgsave | bitcount | bitop | blpop | brpop | brpoplpush
  | client | config | dbsize | debug | decr | decrby | del | discard | dump | echo | eval
  | exec | exists | expire | expireat | flushall | flushdb | get | getbit | getrange | getset
  | hdel | hexists | hget | hgetall | hincrby | hincrbyfloat | hkeys | hlen | hmget | hmset
  | hscan | hset | hsetnx | hvals | incr | incrby | incrbyfloat | info | keys | lastsave
  | lindex | linsert | llen | lpop | lpush | lpushx | lrange | lrem | lset | ltrim | mget
  | migrate | monitor | move | mset | msetnx | multi | object | persist | pexpire | pexpireat
  | ping | psetex | psubscribe | pttl | publish | pubsub | quit | randomkey | rename | renamenx
  | restore | rpop | rpoplpush | rpush | rpushx | sadd | save | scan | scard | script | sdiff
  | sdiffstore | select | set | setbit | setex | setnx | setrange | shutdown | sinter
  | sinterstore | sismember | slaveof | slowlog | smembers | smove | sort | spop | srandmember
  | srem | sscan | strlen | sunion | sunionstore | sync | time | ttl | type | unwatch | watch
  | zadd | zcard | zcount | zincrby | zinterstore | zrange | zrangebyscore | zrank | zrem
  | zremrangebyrank | zremrangebyscore | zrevrange | zrevrangebyscore | zrevrank | zscan
  | zscore | zunionstore | evalsha
  deriving DecidableEq

/-- The table `commands`, which `new` walks to install one method for each name. -/
def commands : List CommandName :=
  [.append, .auth, .bgrewriteaof, .bgsave, .bitcount, .bitop, .blpop, .brpop, .brpoplpush,
   .client, .config, .dbsize, .debug, .decr, .decrby, .del, .discard, .dump, .echo, .eval,
   .exec, .exists, .expire, .expireat, .flushall, .flushdb, .get, .getbit, .getrange, .getset,
   .hdel, .hexists, .hget, .hgetall, .hincrby, .hincrbyfloat, .hkeys, .hlen, .hmget, .hmset,
   .hscan, .hset, .hsetnx, .hvals, .incr, .incrby, .incrbyfloat, .info, .keys, .lastsave,
   .lindex, .linsert, .llen, .lpop, .lpush, .lpushx, .lrange, .lrem, .lset, .ltrim, .mget,
   .migrate, .monitor, .move, .mset, .msetnx, .multi, .object, .persist, .pexpire, .pexpireat,
   .ping, .psetex, .psubscribe, .pttl, .publish, .pubsub, .quit, .randomkey, .rename,
   .renamenx, .restore, .rpop, .rpoplpush, .rpush, .rpushx, .sadd, .save, .scan, .scard,
   .script, .sdiff, .sdiffstore, .select, .set, .setbit, .setex, .setnx, .setrange, .shutdown,
   .sinter, .sinterstore, .sismember, .slaveof, .slowlog, .smembers, .smove, .sort, .spop,
   .srandmember, .srem, .sscan, .strlen, .sunion, .sunionstore, .sync, .time, .ttl, .type,
   .unwatch, .watch, .zadd, .zcard, .zcount, .zincrby, .zinterstore, .zrange, .zrangebyscore,
   .zrank, .zrem, .zremrangebyrank, .zremrangebyscore, .zrevrange, .zrevrangebyscore,
   .zrevrank, .zscan, .zscore, .zunionstore, .evalsha]

/-- An argument of a command: what goes over the wire is a string or a number. -/
inductive Arg where
  | str (s : String)
  | num (n : ℤ)
  deriving DecidableEq

/-- A command with its arguments. -/
structure Command where
  name : CommandName
  args : List Arg
  deriving DecidableEq

namespace Command

/-- `red:get(key)`. -/
def get (key : String) : Command := ⟨.get, [.str key]⟩

/-- `red:incr(key)`. -/
def incr (key : String) : Command := ⟨.incr, [.str key]⟩

/-- `red:expire(key, seconds)`. -/
def expire (key : String) (seconds : ℤ) : Command := ⟨.expire, [.str key, .num seconds]⟩

/-- `red:set(key, value, 'EX', seconds)`. -/
def setEx (key : String) (value seconds : ℤ) : Command :=
  ⟨.set, [.str key, .num value, .str "EX", .num seconds]⟩

end Command

/-- A reply of the server: arrays nest. -/
inductive Reply where
  | null
  | int (n : ℤ)
  | str (s : String)
  | error (e : String)
  | array (rs : List Reply)

namespace Reply

/-- The reply is an error. -/
def isError : Reply → Bool
  | error _ => true
  | _ => false

mutual

/-- The Lua value of a reply inside an array or in the results of a pipeline: null is
`ngx.null`, an error is the table `{false, e}`. -/
def entry : Reply → LuaVal
  | null => .null
  | int n => .num n
  | str s => .str s
  | error e => .table [.bool false, .str e]
  | array rs => .table (entries rs)

/-- The Lua values of the replies of an array. -/
def entries : List Reply → List LuaVal
  | [] => []
  | r :: rs => entry r :: entries rs

end

/-- What `lua-resty-redis` returns for the reply to a single command: the value, or
`false` and the text of the error. -/
def result : Reply → LuaVal × Option String
  | error e => (.bool false, some e)
  | r => (r.entry, none)

end Reply

lemma mem_commands (c : CommandName) : c ∈ commands := by
  cases c <;> decide

end AllInDocker
