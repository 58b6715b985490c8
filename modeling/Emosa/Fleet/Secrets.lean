import Emosa.Store
import Emosa.Lib.Files

/-!
# Emosa.Fleet.Secrets

The fleet keeps the secrets of an agent in line with its own store. A copy the fleet made has a
marker beside it, the HMAC of its value under the key of the agent's store; while the marker matches,
the copy is the fleet's and is replaced when the fleet's value changes. Value and marker are two
files, written one after the other.

`provisionSecrets` is a program over the files of the agent's store. `Site` is the two stores over a
run: the fleet's store changes, the program runs to its end or is killed between two of its
operations, and a value is placed by hand.
-/

namespace Emosa.Fleet

open Durable Files

abbrev Bytes := List UInt8

/-- HMAC-SHA256 in hexadecimal, by key and value. -/
structure Hmac where
  digest : Bytes → Bytes → Bytes
  length_digest : ∀ k v, (digest k v).length = 64

/-- `owned`: a regular file of the program's user that nobody else can read. -/
structure SecretFile where
  data : Bytes
  owned : Bool := true
  deriving DecidableEq

abbrev SecretFiles := Dict String SecretFile

def secretLimit : Nat := 4096

def SecretFile.read? (f : SecretFile) : Option Bytes :=
  if f.owned && f.data.length ≤ secretLimit then some f.data else none

/-- The stored value; none where there is none or it is not kept privately. -/
def read (d : SecretFiles) (name : String) : Option Bytes := (d.get? name).bind SecretFile.read?

/-- A whole match of `[A-Za-z0-9][A-Za-z0-9_.-]{0,95}`. -/
def isReference (s : String) : Bool :=
  match s.toList with
  | [] => false
  | c :: rest => c.isAlphanum && rest.length ≤ 95 &&
      rest.all fun c => c.isAlphanum || c == '_' || c == '.' || c == '-'

def markerName (ref : String) : String := "." ++ ref ++ ".from-fleet"

def temporary (name : String) : String := ".tmp-" ++ name

def keyName : String := ".fingerprint-key"

abbrev FileProg (α : Type) := Prog Unit SecretFiles (FileOp String SecretFile) Exn α

/-- What a new key is made of. -/
structure Draw where
  bytes : Bytes
  length_bytes : bytes.length = 32

def storedKey : FileProg Bytes := do
  match read (← journal) keyName with
  | some k => pure k
  | none => raise (.emosa ⟨.missingPrerequisite, "secret reference unavailable"⟩)

/-- The store's key, made on first use. -/
def key (draw : Draw) : FileProg Bytes := do
  if ((← journal).get? keyName).isNone then
    commit (.create keyName ⟨draw.bytes, true⟩)
    storedKey
  else storedKey

def marker (h : Hmac) (draw : Draw) (value : Bytes) : FileProg Bytes := do
  let k ← key draw
  pure (h.digest k value)

/-- There is a marker, and it is that of the value. -/
def marked (h : Hmac) (draw : Draw) (value : Bytes) : Option Bytes → FileProg Bool
  | none => pure false
  | some mark => do
    let expected ← marker h draw value
    pure (decide (mark = expected))

def replacePrivate (name : String) (value : Bytes) : FileProg Unit := do
  commit (.write (temporary name) ⟨value, true⟩)
  commit (.rename (temporary name) name)

structure Report where
  missing : List String := []
  stale : List String := []
  replaced : List String := []
  unsourced : List String := []
  deriving DecidableEq, Repr

def mark (h : Hmac) (draw : Draw) (value : Bytes) (ref : String) : FileProg Unit := do
  let expected ← marker h draw value
  replacePrivate (markerName ref) expected

/-- The copy is there and the fleet has no value: it is kept. -/
def unsourced (h : Hmac) (draw : Draw) (own : Bytes) (seen : Option Bytes) (ref : String)
    (r : Report) : FileProg Report := do
  if ← marked h draw own seen then pure { r with unsourced := r.unsourced ++ [ref] } else pure r

/-- The copy equals the fleet's value: it is marked, unless it is. -/
def marking (h : Hmac) (draw : Draw) (own : Bytes) (seen : Option Bytes) (ref : String)
    (r : Report) : FileProg Report := do
  if ← marked h draw own seen then pure r
  else
    mark h draw own ref
    pure r

/-- The copy differs from the fleet's value: it is replaced while it is the fleet's. -/
def replacing (h : Hmac) (draw : Draw) (own value : Bytes) (seen : Option Bytes) (ref : String)
    (r : Report) : FileProg Report := do
  if ← marked h draw own seen then
    replacePrivate ref value
    mark h draw value ref
    pure { r with replaced := r.replaced ++ [ref] }
  else pure { r with stale := r.stale ++ [ref] }

def provision (h : Hmac) (draw : Draw) (source : Option Bytes) (ref : String) (r : Report) :
    FileProg Report := do
  let files ← journal
  match read files ref with
  | none =>
    match source with
    | none => pure { r with missing := r.missing ++ [ref] }
    | some value =>
      -- a file that cannot be read as a secret is there all the same, and stands
      if (files.get? ref).isSome then pure r
      else
        commit (.create ref ⟨value, true⟩)
        mark h draw value ref
        pure r
  | some own =>
    let seen := read files (markerName ref)
    match source with
    | none => unsourced h draw own seen ref r
    | some value =>
      if own = value then marking h draw own seen ref r
      else replacing h draw own value seen ref r

/-- What of an agent's configuration names secrets: its uplink's, and its GTP station's. -/
structure AgentConfig where
  secretRef : Option String := none
  bootstrapRef : Option String := none

def AgentConfig.references (c : AgentConfig) : List String :=
  ((c.secretRef.toList ++ c.bootstrapRef.toList).filter isReference).dedup.mergeSort
    fun a b => decide (a ≤ b)

def provisionAll (h : Hmac) (draw : Draw) (source : String → Option Bytes) :
    List String → Report → FileProg Report
  | [], r => pure r
  | ref :: refs, r => do
    let r ← provision h draw (source ref) ref r
    provisionAll h draw source refs r

def provisionSecrets (h : Hmac) (draw : Draw) (source : String → Option Bytes) (c : AgentConfig) :
    FileProg Report := provisionAll h draw source c.references {}

/-! ## Runs -/

/-- The fleet's store, where it has one, and the agent's. -/
structure Site where
  fleet : Option SecretFiles := none
  agent : SecretFiles := ∅

def value (store : Option SecretFiles) (ref : String) : Option Bytes := store.bind fun d => read d ref

def Site.source (s : Site) (ref : String) : Option Bytes := value s.fleet ref

/-- `crash`: the program is killed after so many of its operations. -/
inductive Action where
  | supply (fleet : Option SecretFiles)
  | provision (config : AgentConfig) (draw : Draw) (crash : Option Nat)
  | place (ref : String) (valid : isReference ref = true) (file : SecretFile)

def Site.operations (h : Hmac) (s : Site) (config : AgentConfig) (draw : Draw) :
    List (FileOp String SecretFile) :=
  match provisionSecrets h draw s.source config ⟨(), s.agent, []⟩ with
  | .ok _ p | .error _ p => p.written

def Site.step (h : Hmac) (s : Site) : Action → Site
  | .supply fleet => { s with fleet := fleet }
  | .provision config draw none => { s with agent := replay s.agent (s.operations h config draw) }
  | .provision config draw (some k) =>
      { s with agent := replay s.agent ((s.operations h config draw).take k) }
  | .place ref _ file => { s with agent := s.agent.set ref file }

def Site.run (h : Hmac) (s : Site) (as : List Action) : Site := runs (Site.step h) s as

end Emosa.Fleet
