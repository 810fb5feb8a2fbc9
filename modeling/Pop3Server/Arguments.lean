import Pop3Server.Settings
import Pop3Server.Splitting

/-!
# The command line (`shared/args.c`)

`getoptLong` is the C library's function on the option strings of `parse_args`:
what it delivers one call after the other, and what is left of the command line.
`parseArgs` is `parse_args`; it fills the settings or ends the process.

The arrays of `strsep` are modelled by what has been stored in them: one more
character than they hold is an `overrun`.  `splitTArg` reads the memory that its
argument points to, which goes on behind the terminator.
-/

namespace Pop3Server

open Splitting

def USER_SIZE : Nat := 256

def MAX_USERS : Nat := 10

def DEFAULT_PORT : Nat := 1110

def DEFAULT_MGMT_PORT : Nat := 1111

def COLON : Byte := 58

def HYPHEN : Byte := 45

def EQUALS : Byte := 61

/-! ### The options (`getopt_long`) -/

/-- What a call of `getopt_long` returns, with `optarg`; `unknown` is `'?'`. -/
inductive Opt where
  | h
  | l (optarg : Bytes)
  | L (optarg : Bytes)
  | N (optarg : Bytes)
  | P (optarg : Bytes)
  | u (optarg : Bytes)
  | v (optarg : Bytes)
  | T (optarg : Bytes)
  | d (optarg : Bytes)
  | p (optarg : Bytes)
  | ip (optarg : Bytes)
  | port (optarg : Bytes)
  | host (optarg : Bytes)
  | path (optarg : Bytes)
  | default
  | unknown
deriving DecidableEq, Repr

/-- An option as it is declared: without an argument, or with one. -/
inductive Declared where
  | plain (o : Opt)
  | withArgument (o : Bytes → Opt)

/-- The letters of `"hl:L:N:P:u:v:T:d:p:N"`; the first `N` is the one that counts. -/
def shortOptions : List (Bytes × Declared) :=
  [(str "h", .plain .h), (str "l", .withArgument .l), (str "L", .withArgument .L),
   (str "N", .withArgument .N), (str "P", .withArgument .P), (str "u", .withArgument .u),
   (str "v", .withArgument .v), (str "T", .withArgument .T), (str "d", .withArgument .d),
   (str "p", .withArgument .p)]

def longOptions : List (Bytes × Declared) :=
  [(str "ip", .withArgument .ip), (str "port", .withArgument .port),
   (str "host", .withArgument .host), (str "path", .withArgument .path),
   (str "default", .plain .default)]

def shortOption (letter : Byte) : Option Declared :=
  (shortOptions.find? (·.1 == [letter])).map Prod.snd

/-- A long option may be abbreviated as long as only one begins like this. -/
def longOption (name : Bytes) : Option Declared :=
  match longOptions.find? (·.1 == name) with
  | some e => some e.2
  | none =>
    match longOptions.filter (name.isPrefixOf ·.1) with
    | [e] => some e.2
    | _ => none

/-- The options in an element of the command line, and the one whose argument is the next element. -/
abbrev ElementOptions := List Opt × Option (Bytes → Opt)

def letterOptions : Bytes → ElementOptions
  | [] => ([], none)
  | letter :: letters =>
    match shortOption letter with
    | none => (.unknown :: (letterOptions letters).1, (letterOptions letters).2)
    | some (.plain o) => (o :: (letterOptions letters).1, (letterOptions letters).2)
    | some (.withArgument o) => if letters = [] then ([], some o) else ([o letters], none)

def nameOptions (text : Bytes) : ElementOptions :=
  match longOption (before EQUALS text), after EQUALS text with
  | none, _ => ([.unknown], none)
  | some (.plain o), none => ([o], none)
  | some (.plain _), some _ => ([.unknown], none)
  | some (.withArgument o), some optarg => ([o optarg], none)
  | some (.withArgument o), none => ([], some o)

/-- What the calls of `getopt_long` deliver for the elements of the command line behind the name of
the program, `pending` being an option whose argument comes next, and the elements that are left
once it returns -1: it moves them behind the options. -/
def getoptLong (pending : Option (Bytes → Opt)) : List Bytes → List Opt × List Bytes
  | [] => ((pending.map fun _ => Opt.unknown).toList, [])
  | e :: rest =>
    match pending with
    | some o => (o e :: (getoptLong none rest).1, (getoptLong none rest).2)
    | none =>
      match e with
      | [] => ((getoptLong none rest).1, [] :: (getoptLong none rest).2)
      | first :: text =>
        if first ≠ HYPHEN ∨ text = [] then
          ((getoptLong none rest).1, (first :: text) :: (getoptLong none rest).2)
        else if text = [HYPHEN] then ([], rest)
        else
          let found := if text.head? = some HYPHEN then nameOptions text.tail else letterOptions text
          (found.1 ++ (getoptLong found.2 rest).1, (getoptLong found.2 rest).2)

def options (argv : List Bytes) : List Opt := (getoptLong none argv.tail).1

def leftover (argv : List Bytes) : List Bytes := (getoptLong none argv.tail).2

/-! ### The helpers -/

/-- Why `parse_args` ends the process. -/
inductive ExitReason where
  | usage
  | version
  | port
  | passwordNotFound
  | maximumUsers
  | unknownArgument
  | argumentNotAccepted
deriving DecidableEq, Repr

/-- How the parsing can end other than by returning. -/
inductive ArgsEnd where
  | exit (reason : ExitReason)
  /-- a character is stored past the end of an array of `strsep` -/
  | overrun
deriving DecidableEq, Repr

/-- What `strtol` leaves of a string behind the number; the whole string when there is none. -/
def strtolEnd (s : Bytes) : Bytes :=
  let digits :=
    match s.dropWhile isspace with
    | 45 :: rest => rest
    | 43 :: rest => rest
    | rest => rest
  if digits.takeWhile isdigit = [] then s else digits.dropWhile isdigit

def port (s : Bytes) : Except ArgsEnd Nat :=
  if strtolEnd s = s ∨ strtolEnd s ≠ [] ∨ strtol s < 0 ∨ strtol s > 65535 then
    throw (.exit .port)
  else return (strtol s).toNat

/-- Storing a character behind what an array of `USER_SIZE` characters holds. -/
def store (field : Bytes) (c : Byte) : Except ArgsEnd Bytes :=
  if field.length < USER_SIZE then return field ++ [c] else throw .overrun

/-- The first loop of `strsep`: what it has stored, and where it stops. -/
def firstField (delim : Byte) : Bytes → Bytes → Except ArgsEnd (Bytes × Bytes)
  | field, [] => return (field, [])
  | field, c :: rest =>
    if c ≠ delim then do
      let field ← store field c
      firstField delim field rest
    else return (field, c :: rest)

/-- The second loop of `strsep`. -/
def secondField : Bytes → Bytes → Except ArgsEnd Bytes
  | field, [] => return field
  | field, c :: rest => do
    let field ← store field c
    secondField field rest

/-- `strsep`; `none` is the null pointer. -/
def strsep (s : Bytes) (delim : Byte) : Except ArgsEnd (Option (Bytes × Bytes)) := do
  let (name, rest) ← firstField delim [] s
  match rest with
  | [] => return none
  | _ :: rest =>
    let _ ← store name NUL
    let pass ← secondField [] rest
    let _ ← store pass NUL
    return some (name, pass)

def UserListHeader.append (h : UserListHeader) (u : User) : UserListHeader :=
  ⟨h.list ++ [u], h.size + 1, by simp [h.size_eq]⟩

/-- `user`.  The node is linked before the argument is looked at; nobody sees it when the process
ends there. -/
def user (s : Bytes) (users : UserListHeader) : Except ArgsEnd UserListHeader := do
  match ← strsep s COLON with
  | none => throw (.exit .passwordNotFound)
  | some (name, pass) => return users.append ⟨name, pass⟩

/-- What `split_t_arg` yields, and the last character it has read, counted from the start of the
argument. -/
structure SplitTArg where
  path : Bytes
  rightHandArg : Option Bytes
  lastRead : Nat
deriving DecidableEq, Repr

/-- `split_t_arg` on the memory its argument points to. -/
def splitTArg (original : Bytes) : SplitTArg :=
  let i := (original.takeWhile fun c => c ≠ COLON ∧ c ≠ NUL).length
  let right := original.drop (i + 1)
  let len := (cstr right).length
  ⟨(cstr original).take i,
    if original.getD i NUL = COLON then some ((cstr right).take len) else none, i + 1 + len⟩

/-! ### `parse_args` -/

/-- The users of `--default`. -/
def users : List Bytes :=
  [str "user1:pass1", str "user2:pass2", str "user3:pass3", str "user4:pass4", str "user5:pass5",
   str "user6:pass6"]

/-- `struct pop3_structure`, as far as `parse_args` fills it. -/
structure Args where
  pop3 : Pop3Structure
  port : Nat
  disectorsEnabled : Bool
  mngPort : Nat
  mngIp : Bytes
  mngSocket : Int
deriving DecidableEq

/-- The settings before the first option; `trans` is null because `main` clears the structure. -/
def defaultArgs : Args where
  pop3 :=
    { userList := .ofList [], transEnabled := false, trans := none, baseDir := str "./src/root/",
      host := str "localhost", ip := str "::1" }
  port := DEFAULT_PORT
  disectorsEnabled := false
  mngPort := DEFAULT_MGMT_PORT
  mngIp := str "::1"
  mngSocket := 0

/-- The settings and the count of the `-u` options. -/
structure Parsing where
  args : Args
  nusers : Nat
deriving DecidableEq

section Parse

-- the memory behind the terminator of an argument
variable (behind : Bytes → Bytes)

/-- The memory from the first character of an argument on. -/
def argumentMemory (optarg : Bytes) : Bytes := optarg ++ NUL :: behind optarg

/-- The transformation a `-T` option sets up. -/
def transformationOf (optarg : Bytes) : TransformationStructure :=
  let t := splitTArg (argumentMemory behind optarg)
  ⟨t.path, t.rightHandArg⟩

/-- The switch of `parse_args`.  The `optarg` of `-T` is never null, so the branch for this case is
left out. -/
def parseOption (p : Parsing) (o : Opt) : Except ArgsEnd Parsing :=
  let args := p.args
  let pop3 := args.pop3
  match o with
  | .h => throw (.exit .usage)
  | .l optarg => return { p with args := { args with pop3 := { pop3 with ip := optarg } } }
  | .L optarg => return { p with args := { args with mngIp := optarg } }
  | .N _ => return { p with args := { args with disectorsEnabled := true } }
  | .d optarg => return { p with args := { args with pop3 := { pop3 with baseDir := optarg } } }
  | .p optarg => do
    let n ← port optarg
    return { p with args := { args with port := n } }
  | .P optarg => do
    let n ← port optarg
    return { p with args := { args with mngPort := n } }
  | .T optarg =>
    return { p with args := { args with pop3 :=
      { pop3 with trans := some (transformationOf behind optarg), transEnabled := true } } }
  | .u optarg =>
    if p.nusers ≥ MAX_USERS then throw (.exit .maximumUsers)
    else do
      let userList ← user optarg pop3.userList
      return ⟨{ args with pop3 := { pop3 with userList := userList } }, p.nusers + 1⟩
  | .v _ => throw (.exit .version)
  | .default => do
    let userList ← users.foldlM (fun l s => user s l) pop3.userList
    return { p with args := { args with
      pop3 := { pop3 with
        userList := userList, baseDir := str "./src/root/", host := str "localhost",
        ip := str "::1", transEnabled := false }
      port := DEFAULT_PORT } }
  | .ip optarg => return { p with args := { args with pop3 := { pop3 with ip := optarg } } }
  | .port optarg => do
    let n ← port optarg
    return { p with args := { args with port := n } }
  | .host optarg => return { p with args := { args with pop3 := { pop3 with host := optarg } } }
  | .path optarg => return { p with args := { args with pop3 := { pop3 with baseDir := optarg } } }
  | .unknown => throw (.exit .unknownArgument)

/-- `parse_args` on the whole command line. -/
def parseArgs (argv : List Bytes) : Except ArgsEnd Args := do
  let p ← (options argv).foldlM (parseOption behind) ⟨defaultArgs, 0⟩
  if leftover argv ≠ [] then throw (.exit .argumentNotAccepted) else return p.args

end Parse

end Pop3Server
