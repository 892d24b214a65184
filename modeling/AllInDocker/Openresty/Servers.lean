import AllInDocker.Lib.Locations
import AllInDocker.Lib.Pcre

/-!
The servers of `conf.d`: `default.conf` and the template `example.conf.example`, both of which
include `general.conf` in their locations.

A request passes the phases of the location that is found for it: access, `try_files` and
content. `try_files` and `index` send it on to another URI, for which a location is searched
again (`VirtualServer.follow`). Query strings, which no location looks at, are left out.
-/

namespace AllInDocker

open Locations Pcre Pcre.Re

/-! ### The directives -/

/-- The path of a request, decoded and normalised: it begins with a slash. -/
structure Uri where
  text : List Char
  rooted : text.head? = some '/'
  deriving DecidableEq

/-- A URI with more text at its end. -/
def Uri.append (uri : Uri) (name : List Char) : Uri where
  text := uri.text ++ name
  rooted := by rw [List.head?_append, uri.rooted, Option.some_or]

/-- What may be at a path. -/
inductive FileKind where
  | file
  | directory
  deriving DecidableEq

/-- What nginx finds at the paths of the machine. -/
abbrev Disk := List Char → Option FileKind

/-- Where the files of a location are: the text stands for the first `cut` characters of the
URI. -/
structure DocumentRoot where
  text : List Char
  cut : ℕ
  deriving DecidableEq

/-- `root text`: it loses a slash at its end. -/
def DocumentRoot.ofRoot (text : List Char) : DocumentRoot where
  text := if text.getLast? = some '/' then text.dropLast else text
  cut := 0

/-- `alias text`, in the location `w`: it stays as it is. -/
def DocumentRoot.ofAlias (w text : String) : DocumentRoot := ⟨text.toList, w.toList.length⟩

/-- The path of a URI. -/
def DocumentRoot.path (root : DocumentRoot) (uri : Uri) : List Char :=
  root.text ++ uri.text.drop root.cut

/-- `add_header name value`, for some statuses only or `always`. -/
structure Header where
  name : String
  value : String
  always : Bool
  deriving DecidableEq

/-- `try_files`: what is accepted at `$uri`, a file or with a slash a directory, and where a
request goes without. -/
structure TryFiles where
  kinds : List FileKind
  fallback : Uri
  deriving DecidableEq

/-- The directives of a level that decide on access, on the headers and on who answers. -/
structure Directives where
  root : Option DocumentRoot := none
  index : Option (List (List Char)) := none
  tryFiles : Option TryFiles := none
  addHeader : List Header := []
  denyAll : Bool := false
  authBasic : Option String := none
  fastcgiPass : Option String := none
  deriving DecidableEq

/-- The headers of `general.conf`. -/
def securityHeaders : List Header :=
  [⟨"X-Frame-Options", "SAMEORIGIN", true⟩,
    ⟨"X-XSS-Protection", "1; mode=block", true⟩,
    ⟨"X-Content-Type-Options", "nosniff", true⟩,
    ⟨"Referrer-Policy", "no-referrer-when-downgrade", true⟩,
    ⟨"Content-Security-Policy", "default-src * data: 'unsafe-eval' 'unsafe-inline'", true⟩,
    ⟨"Strict-Transport-Security", "max-age=31536000; includeSubDomains; preload", true⟩]

/-- The header of the fonts. -/
def fontHeader : Header := ⟨"Access-Control-Allow-Origin", "*", false⟩

/-- `~ /\.(?!well-known)` -/
def dotFiles : Re := seq (str "/.".toList) (notAhead (str "well-known".toList))

/-- The names of `\.(?:css(\.map)?|js(\.map)?|jpe?g|…)$` -/
def assetNames : Re :=
  seq (chr '.') (alts (seq (str "css".toList) (opt (str ".map".toList)))
    [seq (str "js".toList) (opt (str ".map".toList)),
      seq (str "jp".toList) (seq (opt (chr 'e')) (chr 'g')),
      str "png".toList, str "gif".toList, str "ico".toList, str "cur".toList, str "heic".toList,
      str "webp".toList, seq (str "tif".toList) (opt (chr 'f')), str "mp3".toList,
      str "m4a".toList, str "aac".toList, str "ogg".toList,
      seq (str "mid".toList) (opt (chr 'i')), str "wav".toList, str "mp4".toList,
      str "mov".toList, str "webm".toList, seq (str "mp".toList) (seq (opt (chr 'e')) (chr 'g')),
      str "avi".toList, str "ogv".toList, str "flv".toList, str "wmv".toList])

/-- The names of `\.(?:svgz?|ttf|ttc|otf|eot|woff2?)$` -/
def fontNames : Re :=
  seq (chr '.') (alts (seq (str "svg".toList) (opt (chr 'z')))
    [str "ttf".toList, str "ttc".toList, str "otf".toList, str "eot".toList,
      seq (str "woff".toList) (opt (chr '2'))])

/-- The name of `\.php$` -/
def phpName : Re := str ".php".toList

/-- `location ~ re` -/
def matching (re : Re) (d : Directives) : Location Directives :=
  .mk (.test (re.search id)) d []

/-- `location ~* re` -/
def matchingCaseless (re : Re) (d : Directives) : Location Directives :=
  .mk (.test (re.search Char.toLower)) d []

/-- The locations of `general.conf`: dot files, assets and media, fonts. -/
def general : List (Location Directives) :=
  [matching dotFiles { denyAll := true },
    matchingCaseless (seq assetNames eol) {},
    matchingCaseless (seq fontNames eol) { addHeader := [fontHeader] }]

/-- The directives of a location that includes `general.conf`. -/
def included (d : Directives) : Directives := { d with addHeader := securityHeaders }

/-- `location w` with `general.conf` included. -/
def includingGeneral (w : String) (d : Directives) : Location Directives :=
  .mk (.beginning w.toList) (included d) general

/-- `/index.php?$query_string` -/
def indexPhp : Uri := ⟨"/index.php".toList, rfl⟩

/-- The directives of `location /`, beside those of `general.conf`. -/
def slashDirectives : Directives where
  tryFiles := some ⟨[.file, .directory], indexPhp⟩
  index := some ["index.html".toList, "index.htm".toList, "index.php".toList]

/-- The directives of `location /test`, beside those of `general.conf`. -/
def testDirectives : Directives where
  root := some (.ofAlias "/test" "/data/www/")
  authBasic := some "password is:password"
  index := some ["index.html".toList, "index.php".toList]

/-- The directives of `location ~ \.php$`. -/
def phpDirectives : Directives where
  fastcgiPass := some "php73:9000"

/-- `location ~ \.php$` -/
def phpLocation : Location Directives := matching (seq phpName eol) phpDirectives

/-- A server, with the directives outside of its locations. -/
structure VirtualServer where
  directives : Directives
  locations : List (Location Directives)

/-- The directives outside of the locations. -/
def serverDirectives (text : List Char) : Directives := { root := some (.ofRoot text) }

/-- `default.conf` -/
def defaultConf : VirtualServer where
  directives := serverDirectives "/data/www/".toList
  locations := [includingGeneral "/" slashDirectives, includingGeneral "/test" testDirectives,
    phpLocation]

/-- `example.conf.example`, for every host and path. -/
def exampleConf (absPath : List Char) : VirtualServer where
  directives := serverDirectives absPath
  locations := [includingGeneral "/" slashDirectives, phpLocation]

/-! ### The phases of a request -/

/-- The methods nginx tells apart when it has files to send. -/
inductive HttpMethod where
  | get
  | head
  | post
  | other
  deriving DecidableEq

/-- A request, with whether the password that comes with it is right. -/
structure HttpRequest where
  uri : Uri
  method : HttpMethod
  authorised : Bool

/-- How a request is answered. -/
inductive HttpAnswer where
  /-- `deny all`, status 403. -/
  | denied
  /-- The question for the password, status 401. -/
  | unauthorised
  /-- What PHP makes of a script, `SCRIPT_FILENAME`. -/
  | script (filename : List Char)
  /-- A file. -/
  | file (path : List Char)
  /-- The URI with a slash, status 301. -/
  | moved
  /-- A directory without an index, status 403. -/
  | noIndex
  /-- Nothing, status 404. -/
  | missing
  /-- A method that is not for files, status 405. -/
  | notAllowed
  /-- Too many URIs, status 500. -/
  | cycle
  deriving DecidableEq

/-- The end of the phases: an answer, or another URI. -/
inductive HttpOutcome where
  | answer (a : HttpAnswer)
  | redirect (uri : Uri)

/-- An answer, with the levels of the location it comes from. -/
structure HttpReply where
  levels : List Directives
  answer : HttpAnswer

/-- `index`: the first name in the directory, be it a file or a directory itself. That there is
a directory is looked at when a name is missing. -/
def directoryIndex (disk : Disk) (path : List Char) (uri : Uri) : List (List Char) → HttpOutcome
  | [] => .answer .noIndex
  | name :: names =>
      if (disk (path ++ name)).isSome then .redirect (uri.append name)
      else if disk path = some .directory then directoryIndex disk path uri names
      else .answer .missing

/-- The answer to a URI without a slash at its end. -/
def staticFile (disk : Disk) (path : List Char) (method : HttpMethod) : HttpAnswer :=
  match disk path with
  | none => .missing
  | some .directory => .moved
  | some .file => if method = .post then .notAllowed else .file path

/-- The content phase of a location that has files. -/
def fileContent (disk : Disk) (root : DocumentRoot) (index : List (List Char)) (r : HttpRequest) :
    HttpOutcome :=
  if r.method = .other then .answer .notAllowed
  else if r.uri.text.getLast? = some '/' then
    directoryIndex disk (root.path r.uri) r.uri index
  else .answer (staticFile disk (root.path r.uri) r.method)

namespace VirtualServer

variable (v : VirtualServer) (uri : Uri)

/-- The directives of the levels from the server to the location of a request. -/
def levels : List Directives := v.directives :: (locate uri.text v.locations).levels

/-- `deny all`, for the level that has it and those below. -/
def denied : Bool :=
  (inherited (fun d => if d.denyAll then some () else none) (v.levels uri)).isSome

/-- The realm of the password. -/
def realm : Option String := inherited (·.authBasic) (v.levels uri)

/-- The root, `html` by default. -/
def root : DocumentRoot := (inherited (·.root) (v.levels uri)).getD ⟨"html".toList, 0⟩

/-- The names of index files, `index.html` by default. -/
def index : List (List Char) := (inherited (·.index) (v.levels uri)).getD ["index.html".toList]

/-- `try_files` is not passed on to the locations inside. -/
def tryFiles : Option TryFiles := (v.levels uri).getLast?.bind (·.tryFiles)

/-- Whether PHP answers. -/
def handler : Option String := (v.levels uri).getLast?.bind (·.fastcgiPass)

/-- The answer by which the access phase ends a request, if it does: the denial comes before the
password. -/
def access (r : HttpRequest) : Option HttpAnswer :=
  if v.denied r.uri then some .denied
  else if (v.realm r.uri).isSome && !r.authorised then some .unauthorised
  else none

/-- The content phase. -/
def content (disk : Disk) (r : HttpRequest) : HttpOutcome :=
  if (v.handler r.uri).isSome then .answer (.script ((v.root r.uri).text ++ r.uri.text))
  else fileContent disk (v.root r.uri) (v.index r.uri) r

/-- The phases. -/
def phases (disk : Disk) (r : HttpRequest) : HttpOutcome :=
  match v.access r with
  | some a => .answer a
  | none =>
      match v.tryFiles r.uri with
      | some ⟨kinds, fallback⟩ =>
          if (disk ((v.root r.uri).path r.uri)).any (· ∈ kinds) then v.content disk r
          else .redirect fallback
      | none => v.content disk r

/-- The phases, again for each URI a request is sent on to; so many of them are allowed. -/
def follow (disk : Disk) : ℕ → HttpRequest → HttpReply
  | 0, r =>
      match v.phases disk r with
      | .answer a => ⟨v.levels r.uri, a⟩
      | .redirect _ => ⟨v.levels r.uri, .cycle⟩
  | n + 1, r =>
      match v.phases disk r with
      | .answer a => ⟨v.levels r.uri, a⟩
      | .redirect uri => follow disk n { r with uri := uri }

/-- The reply to a request. -/
def serve (disk : Disk) (r : HttpRequest) : HttpReply := v.follow disk 10 r

end VirtualServer

/-- The statuses for which a header is added that is not `always`. -/
def addedStatuses : List ℕ := [200, 201, 204, 206, 301, 302, 303, 304, 307, 308]

/-- The headers that are added to a reply. The headers of a level replace those of the levels
above. -/
def HttpReply.headers (reply : HttpReply) (status : ℕ) : List Header :=
  ((inherited (fun d => if d.addHeader = [] then none else some d.addHeader)
    reply.levels).getD []).filter fun h => h.always || decide (status ∈ addedStatuses)

end AllInDocker
