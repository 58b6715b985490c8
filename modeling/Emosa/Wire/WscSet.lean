import Emosa.Lib.Except
import Emosa.Wire.WscRadio

/-!
# Emosa.Wire.WscSet

One M2 authenticated under the transcript: its attributes, the keys derived from M1 and from its
registrar's public key and nonce, its authenticator, and its settings decrypted. The digests, AES and
the private key are the libraries' (`Primitives`).

* `Tagged`: octets that end in the tag of what stands before it.
* `Opened`: what stands behind an envelope.
-/

namespace Emosa.Wsc

open Emosa.Except

open Wire (Bytes unpackH)

/-! ## Messages -/

def invalidCrypto {α : Type} : Except EmosaError α :=
  .error ⟨.invalidInput, "invalid WSC cryptographic input"⟩

def maxComponentBytes : Nat := 1024 * 1024
def maxComponentAttributes : Nat := 4096

/-- The loop of `decodeAttributes`: `rest` is the data from the current offset on. -/
def attributesFrom (found : List Attribute) (rest : Bytes) : Except EmosaError (List Attribute) :=
  match rest with
  | [] => .ok found
  | k₁ :: k₀ :: l₁ :: l₀ :: rest =>
    if found.length = maxComponentAttributes then invalidCrypto
    else if rest.length < unpackH l₁ l₀ then invalidCrypto
    else attributesFrom (found ++ [⟨unpackH k₁ k₀, rest.take (unpackH l₁ l₀)⟩]) (rest.drop (unpackH l₁ l₀))
  | _ => invalidCrypto
termination_by rest.length
decreasing_by
  simp only [List.length_drop, List.length_cons]
  omega

def decodeAttributes (data : Bytes) : Except EmosaError (List Attribute) :=
  if data.length > maxComponentBytes then invalidCrypto else attributesFrom [] data

def messageTypeKind : Nat := 0x1022
def enrolleeNonce : Nat := 0x101A
def registrarNonce : Nat := 0x1039
def encryptedSettings : Nat := 0x1018
def bssIndex : Nat := 0x1BBC

inductive MessageType where
  | m1 | m2

/-- The fields of a message: those of both, the device's strings, its own, and the optional ones. -/
def MessageType.fields (type : MessageType) : List Field :=
  let exact := fun kind n => (⟨kind, n, n, true⟩ : Field)
  let string := fun kind n => (⟨kind, 0, n, true⟩ : Field)
  [exact 0x104A 1, exact messageTypeKind 1, exact enrolleeNonce 16, exact publicKey 192, exact 0x1004 2,
    exact 0x1010 2, exact 0x100D 1, exact 0x1008 2, exact 0x1054 8, exact 0x103C 1, exact 0x1002 2,
    exact 0x1012 2, exact 0x1009 2, exact 0x102D 4, string 0x1021 64, string 0x1023 32,
    string 0x1024 32, string 0x1042 32, string 0x1011 32] ++
  (match type with
    | .m1 => [exact 0x1047 16, exact 0x1020 6, exact 0x1044 1]
    | .m2 => [exact registrarNonce 16, exact 0x1048 16, exact 0x1005 8]) ++
  [⟨bssIndex, 1, 1, false⟩, ⟨encryptedSettings, 32, 65535, false⟩]

def MessageType.code : MessageType → UInt8
  | .m1 => 4
  | .m2 => 5

def message (data : Bytes) (type : MessageType) :
    Except EmosaError (List Attribute × Dict Nat Bytes) := do
  let attributes ← decodeAttributes data
  let fields ← singletons type.fields attributes
  if fields.get? messageTypeKind ≠ some [type.code] then invalidMessage
  else do
    let extensions ← vendorSubelements attributes
    let versions := (extensions.filter (·.kind = 0)).map (·.value)
    if versions.length > 1 ∨ versions.any (·.length ≠ 1) then invalidMessage
    else if (fields.get? bssIndex).isSome ∧
        (type.code ≠ 5 ∨ (attributes.dropLast.getLast?).map (·.kind) ≠ some bssIndex) then invalidMessage
    else .ok (attributes, fields)

/-- A field that `message` has found. -/
def field (fields : Dict Nat Bytes) (kind : Nat) : Bytes := (fields.get? kind).getD []

/-! ## Protection -/

def modp1536 : Nat :=
  [0xFFFFFFFFFFFFFFFFC90FDAA22168C234C4C6628B80DC1CD129024E088A67CC74020BBEA63B139B22514A08798E3404DD,
   0xEF9519B3CD3A431B302B0A6DF25F14374FE1356D6D51C245E485B576625E7EC6F44C42E9A637ED6B0BFF5CB6F406B7ED,
   0xEE386BFB5A899FA5AE9F24117C4B1FE649286651ECE45B3DC2007CB8A163BF0598DA48361C55D39A69163FA8FD24CF5F,
   0x83655D23DCA3AD961C62F356208552BB9ED529077096966D670C354E4ABC9804F1746C08CA237327FFFFFFFFFFFFFFFF].foldl
    (2 ^ 384 * · + ·) 0

/-- `pow` with a modulus, for an exponent of so many bits. -/
def powMod (modulus : Nat) : (bits base exponent : Nat) → Nat
  | 0, _, _ => 1 % modulus
  | bits + 1, base, exponent => (if exponent % 2 = 1 then base else 1) *
      powMod modulus bits (base * base % modulus) (exponent / 2) % modulus

/-- The digests, AES in CBC mode by key and IV, and the transcript's key pair: its public octets, and
its exchange with a public number. -/
structure Primitives where
  sha256 : Bytes → Bytes
  hmac : (key data : Bytes) → Bytes
  decrypt : (key iv text : Bytes) → Bytes
  own : Bytes
  exchange : Nat → Option Bytes
  length_hmac : ∀ key data, (hmac key data).length = 32

structure SessionKeys where
  authKey : Bytes
  keyWrapKey : Bytes
  emsk : Bytes

def packI (n : Nat) : Bytes := Wire.packH (n / 65536) ++ Wire.packH n

def unpad (padded : Bytes) : Except EmosaError Bytes :=
  match padded.getLast? with
  | none => invalidCrypto
  | some last =>
    let text := padded.take (padded.length - last.toNat)
    if last.toNat = 0 ∨ last.toNat > 16 ∨ padded ≠ text ++ List.replicate last.toNat last then invalidCrypto
    else .ok text

def authenticator : Nat := 0x1005
def keyWrapAuthenticator : Nat := 0x101E

def withoutTrailer (data : Bytes) (kind : Nat) : Except EmosaError (Bytes × Bytes) := do
  let attributes ← decodeAttributes data
  match attributes.getLast? with
  | none => invalidCrypto
  | some last =>
    if last.kind ≠ kind ∨ last.value.length ≠ 8 ∨ attributes.dropLast.any (·.kind = kind) then
      invalidCrypto
    else .ok (data.take (data.length - 12), last.value)

variable (crypto : Primitives) (m1 : Bytes)

def derive (peer nonce mac registrar : Bytes) : Except EmosaError SessionKeys :=
  if peer.length ≠ 192 ∨ nonce.length ≠ 16 ∨ mac.length ≠ 6 ∨ registrar.length ≠ 16 then invalidCrypto
  else if ¬ (2 ≤ fromBytes peer ∧ fromBytes peer ≤ modp1536 - 2) then invalidCrypto
  else if powMod modp1536 1536 (fromBytes peer) ((modp1536 - 1) / 2) ≠ 1 then invalidCrypto
  else match crypto.exchange (fromBytes peer) with
    | none => invalidCrypto
    | some shared =>
      let dhKey := crypto.sha256 (List.replicate (192 - shared.length) 0 ++ shared)
      let kdk := crypto.hmac dhKey (nonce ++ mac ++ registrar)
      let label := "Wi-Fi Easy and Secure Key Derivation".toUTF8.data.toList
      let material := ([1, 2, 3].flatMap fun i => crypto.hmac kdk (packI i ++ label ++ packI 640)).take 80
      .ok ⟨material.take 32, (material.drop 32).take 16, material.drop 48⟩

def tag (keys : SessionKeys) (data : Bytes) : Bytes := (crypto.hmac keys.authKey data).take 8

def verifyMessage (keys : SessionKeys) (previous current : Bytes) : Except EmosaError Bytes :=
  if previous.length > maxComponentBytes then invalidCrypto
  else do
    let (unsigned, found) ← withoutTrailer current authenticator
    if tag crypto keys (previous ++ unsigned) ≠ found then invalidCrypto else .ok unsigned

def decryptSettings (keys : SessionKeys) (encrypted : Bytes) : Except EmosaError Bytes :=
  if ¬ (32 ≤ encrypted.length ∧ encrypted.length ≤ 0xFFFF) ∨ encrypted.length % 16 ≠ 0 then invalidCrypto
  else do
    let text ← unpad (crypto.decrypt keys.keyWrapKey (encrypted.take 16) (encrypted.drop 16))
    let (plaintext, found) ← withoutTrailer text keyWrapAuthenticator
    if tag crypto keys plaintext ≠ found then invalidCrypto else .ok plaintext

/-! ## Authentication -/

def authenticateM2Envelope (data : Bytes) : Except EmosaError Envelope := do
  let (_, enrollee) ← message m1 .m1
  let (attributes, registrar) ← message data .m2
  if crypto.own ≠ field enrollee publicKey ∨
      field enrollee enrolleeNonce ≠ field registrar enrolleeNonce then invalidMessage
  else do
    let keys ← derive crypto (field registrar publicKey) (field enrollee enrolleeNonce)
      (field enrollee 0x1020) (field registrar registrarNonce)
    let _ ← verifyMessage crypto keys m1 data
    match registrar.get? encryptedSettings with
    | none => .error ⟨.unsupportedOperation, "M2 without AP settings needs another WSC procedure"⟩
    | some encrypted => do
      let plain ← decryptSettings crypto keys encrypted
      let settings ← decodeAttributes plain
      let _ ← vendorSubelements settings
      .ok ⟨field registrar registrarNonce, (registrar.get? bssIndex).map fun v => (v.headD 0).toNat, settings,
        attributes⟩

/-- The types that the last attribute of the kind in M1 gives. -/
def advertised (kind : Nat) : Nat :=
  fromBytes ((((decodeAttributes m1).toOption.getD []).filter (·.kind = kind)).getLast?.elim [] (·.value))

def transcript : M1Transcript where
  authenticate := authenticateM2Envelope crypto m1
  authenticationTypes := advertised m1 0x1004
  encryptionTypes := advertised m1 0x1010

/-! ## The set -/

/-- The last attribute, and no other, is of this kind; it has the tag of the octets before it. -/
def Tagged (kind : Nat) (tagOf : Bytes → Bytes) (data unsigned : Bytes) : Prop :=
  ∃ attributes, decodeAttributes data = .ok (attributes ++ [⟨kind, tagOf unsigned⟩]) ∧
    (∀ a ∈ attributes, a.kind ≠ kind) ∧ unsigned = data.take (data.length - 12)

/-- The envelope is that of a message whose tags both verify, under the keys of M1 and of the message's
own public key and nonce. -/
def Opened (data : Bytes) (e : Envelope) : Prop :=
  ∃ enrollee registrar keys unsigned encrypted text plain,
    message m1 .m1 = .ok enrollee ∧ message data .m2 = .ok (e.attributes, registrar) ∧
    derive crypto (field registrar publicKey) (field enrollee.2 enrolleeNonce)
      (field enrollee.2 0x1020) (field registrar registrarNonce) = .ok keys ∧
    Tagged authenticator (fun unsigned => tag crypto keys (m1 ++ unsigned)) data unsigned ∧
    registrar.get? encryptedSettings = some encrypted ∧
    unpad (crypto.decrypt keys.keyWrapKey (encrypted.take 16) (encrypted.drop 16)) = .ok text ∧
    Tagged keyWrapAuthenticator (tag crypto keys) text plain ∧ decodeAttributes plain = .ok e.configData ∧
    e.registrarNonce = field registrar registrarNonce

/-- The settings and the role bits are those of the decrypted settings. -/
def Taken (e : Envelope) (bss : BssPayload) : Prop :=
  ApSettings.parse e.configData = .ok bss.settings ∧
  ∃ subelements flags, vendorSubelements e.configData = .ok subelements ∧
    (subelements.filter (·.kind = multiAp)).map (·.value) = [[flags]] ∧
    bss.multiApFlags = flags.toNat &&& 0xFC

/-- What a decoded set is made of. -/
structure Whole (messages : List Bytes) (shared : Bool) (set : RadioPayloadSet)
    (envelopes : List Envelope) : Prop where
  opened : List.Forall₂ (Opened crypto m1) messages envelopes
  apart : shared = false → (envelopes.map Envelope.registrarNonce).Nodup
  same : shared = true → ∀ e ∈ envelopes, ∀ e' ∈ envelopes, e.registrarNonce = e'.registrarNonce
  configure : set.action = .configure → List.Forall₂ Taken envelopes set.bsses
  teardown : set.action = .teardown → messages.length = 1 ∧ set.bsses = []

variable {crypto m1}

theorem withoutTrailer_ok {data unsigned found : Bytes} {kind : Nat} {tagOf : Bytes → Bytes}
    (h : withoutTrailer data kind = .ok (unsigned, found)) (htag : tagOf unsigned = found) :
    Tagged kind tagOf data unsigned := by
  obtain ⟨attributes, hdecode, hres⟩ := bind_ok h
  rcases List.eq_nil_or_concat attributes with rfl | ⟨before, last, rfl⟩
  · cases hres
  · rw [List.concat_eq_append] at hdecode
    simp only [List.concat_eq_append, List.getLast?_concat, List.dropLast_concat] at hres
    obtain ⟨hlast, hres⟩ := guard_passed hres
    simp only [not_or, not_not, List.any_eq_true, decide_eq_true_eq, not_exists, not_and] at hlast
    cases hres
    exact ⟨before, by rw [hdecode, htag, ← hlast.1], hlast.2.2, rfl⟩

theorem verifyMessage_ok {keys : SessionKeys} {data unsigned : Bytes}
    (h : verifyMessage crypto keys m1 data = .ok unsigned) :
    Tagged authenticator (fun unsigned => tag crypto keys (m1 ++ unsigned)) data unsigned := by
  unfold verifyMessage at h
  split at h
  · cases h
  obtain ⟨⟨unsigned, found⟩, htrailer, h⟩ := bind_ok h
  dsimp only at h
  split at h <;> cases h
  exact withoutTrailer_ok htrailer (not_not.mp ‹_›)

theorem decryptSettings_ok {keys : SessionKeys} {encrypted plain : Bytes}
    (h : decryptSettings crypto keys encrypted = .ok plain) : ∃ text,
    unpad (crypto.decrypt keys.keyWrapKey (encrypted.take 16) (encrypted.drop 16)) = .ok text ∧
      Tagged keyWrapAuthenticator (tag crypto keys) text plain := by
  unfold decryptSettings at h
  split at h
  · cases h
  obtain ⟨text, htext, h⟩ := bind_ok h
  obtain ⟨⟨unsigned, found⟩, htrailer, h⟩ := bind_ok h
  dsimp only at h
  split at h <;> cases h
  exact ⟨text, htext, withoutTrailer_ok htrailer (not_not.mp ‹_›)⟩

theorem authenticateM2Envelope_ok {data : Bytes} {e : Envelope}
    (h : authenticateM2Envelope crypto m1 data = .ok e) : Opened crypto m1 data e := by
  obtain ⟨enrollee, henrollee, h⟩ := bind_ok h
  obtain ⟨⟨attributes, registrar⟩, hregistrar, h⟩ := bind_ok h
  simp only at h
  split at h
  · cases h
  obtain ⟨keys, hkeys, h⟩ := bind_ok h
  obtain ⟨unsigned, hverified, h⟩ := bind_ok h
  cases hsettings : registrar.get? encryptedSettings with
  | none => simp [hsettings] at h
  | some encrypted =>
    simp only [hsettings] at h
    obtain ⟨plain, hplain, h⟩ := bind_ok h
    obtain ⟨settings, hdecode, h⟩ := bind_ok h
    obtain ⟨-, -, h⟩ := bind_ok h
    cases h
    obtain ⟨text, htext, htagged⟩ := decryptSettings_ok hplain
    exact ⟨enrollee, registrar, keys, unsigned, encrypted, text, plain, henrollee, hregistrar, hkeys,
      verifyMessage_ok hverified, hsettings, htext, htagged, hdecode, rfl⟩

theorem roleFlags_ok {e : Envelope} {n : Nat} (h : roleFlags e = .ok n) : ∃ subelements flags,
    vendorSubelements e.configData = .ok subelements ∧
    (subelements.filter (·.kind = multiAp)).map (·.value) = [[flags]] ∧ n = flags.toNat &&& 0xFC := by
  obtain ⟨outside, -, h⟩ := bind_ok h
  split at h
  · cases h
  obtain ⟨inside, hinside, h⟩ := bind_ok h
  split at h
  · rename_i flags hflags
    cases h
    exact ⟨inside, flags, hinside, hflags, rfl⟩
  · cases h

theorem mapM_forall₂ {ε α β : Type} {f : α → Except ε β} {l : List α} {r : List β}
    (h : l.mapM f = .ok r) : List.Forall₂ (fun a b => f a = .ok b) l r := by
  induction l generalizing r with
  | nil =>
    cases h
    exact .nil
  | cons a l ih =>
    rw [List.mapM_cons] at h
    obtain ⟨b, hb, h⟩ := bind_ok h
    obtain ⟨bs, hbs, h⟩ := bind_ok h
    cases h
    exact .cons hb (ih hbs)

theorem authenticateM2Envelopes_ok {t : M1Transcript} {messages : List Bytes} {maxBss : Nat}
    {shared : Bool} {envelopes : List Envelope}
    (h : t.authenticateM2Envelopes messages maxBss shared = .ok envelopes) :
    messages.mapM t.authenticate = .ok envelopes ∧
    (shared = false → (envelopes.map Envelope.registrarNonce).Nodup) ∧
    (shared = true → ∀ e ∈ envelopes, ∀ e' ∈ envelopes, e.registrarNonce = e'.registrarNonce) := by
  unfold M1Transcript.authenticateM2Envelopes at h
  split at h
  · cases h
  split at h
  · cases h
  obtain ⟨results, hresults, h⟩ := bind_ok h
  dsimp only at h
  split at h
  · cases h
  split at h
  · cases h
  split at h
  · cases h
  rename_i hshared hapart _
  cases h
  refine ⟨hresults, fun hs => not_not.mp fun hn => hapart ⟨hs, hn⟩, fun hs => ?_⟩
  have hone : (envelopes.map Envelope.registrarNonce).dedup.length = 1 :=
    not_not.mp fun hn => hshared ⟨hs, .inl hn⟩
  obtain ⟨nonce, hnonce⟩ := List.length_eq_one_iff.mp hone
  have hall : ∀ e ∈ envelopes, e.registrarNonce = nonce := fun e he => by
    have hmem := List.mem_dedup.mpr (List.mem_map_of_mem (f := Envelope.registrarNonce) he)
    rwa [hnonce, List.mem_singleton] at hmem
  exact fun e he e' he' => (hall e he).trans (hall e' he').symm

theorem payloads_taken {envelopes : List Envelope} {roles : List Nat} {bsses : List BssPayload}
    (hroles : List.Forall₂ (fun e n => roleFlags e = .ok n) envelopes roles)
    (h : (envelopes.zip roles).mapM (fun e => do
      let settings ← ApSettings.parse e.1.configData
      return (⟨e.1.bssIndex, e.2, settings⟩ : BssPayload)) = .ok bsses) : List.Forall₂ Taken envelopes bsses := by
  induction hroles generalizing bsses with
  | nil =>
    cases h
    exact .nil
  | cons hrole _ ih =>
    rw [List.zip_cons_cons, List.mapM_cons] at h
    obtain ⟨bss, hbss, h⟩ := bind_ok h
    obtain ⟨rest, hrest, h⟩ := bind_ok h
    obtain ⟨settings, hsettings, hbss⟩ := bind_ok hbss
    cases h
    cases hbss
    exact .cons ⟨hsettings, roleFlags_ok hrole⟩ (ih hrest)

theorem decodeRadioPayloads_ok {messages : List Bytes} {maxBss : Nat} {shared : Bool}
    {set : RadioPayloadSet}
    (h : decodeRadioPayloads (transcript crypto m1) messages maxBss shared = .ok set) :
    ∃ envelopes, Whole crypto m1 messages shared set envelopes := by
  obtain ⟨envelopes, henvelopes, h⟩ := bind_ok h
  obtain ⟨hall, hapart, hsame⟩ := authenticateM2Envelopes_ok henvelopes
  obtain ⟨roles, hroles, h⟩ := bind_ok h
  have hopened := (mapM_forall₂ hall).imp fun _ _ => authenticateM2Envelope_ok
  refine ⟨envelopes, hopened, hapart, hsame, ?_, ?_⟩ <;> intro hact <;> split at h
  · split at h <;> cases h
    cases hact
  · obtain ⟨bsses, hbsses, h⟩ := bind_ok h
    cases h
    exact payloads_taken (mapM_forall₂ hroles) hbsses
  · split at h <;> cases h
    exact ⟨hopened.length_eq.trans (not_not.mp ‹_›), rfl⟩
  · obtain ⟨bsses, hbsses, h⟩ := bind_ok h
    cases h
    cases hact

/-- A set is taken whole or not at all. -/
theorem m2_set_whole (crypto : Primitives) (m1 : Bytes) (messages : List Bytes)
    (maxBss : Nat) (shared : Bool) :
    (∀ set, decodeRadioPayloads (transcript crypto m1) messages maxBss shared = .ok set →
      ∃ envelopes, Whole crypto m1 messages shared set envelopes) ∧
    ∀ data ∈ messages, (∀ e, ¬ Opened crypto m1 data e) →
      ∀ set, decodeRadioPayloads (transcript crypto m1) messages maxBss shared ≠ .ok set := by
  refine ⟨fun set => decodeRadioPayloads_ok, fun data hdata hnot set h => ?_⟩
  obtain ⟨envelopes, hwhole⟩ := decodeRadioPayloads_ok h
  have hall := hwhole.opened.imp fun a e he => And.intro (Exists.intro e he) he
  obtain ⟨e, he⟩ := ((List.forall₂_and_left _ _).mp hall).1 data hdata
  exact hnot e he

/-- Four as a public key: a square. -/
def four : Bytes := List.replicate 191 0 ++ [4]

/-- A sum of octets for each digest, and no cipher. -/
def sumPrimitives : Primitives where
  sha256 data := data
  hmac key data := ((key ++ data).foldl (· + ·) 0) :: List.replicate 31 0
  decrypt _ _ text := text
  own := four
  exchange _ := some []
  length_hmac _ _ := by simp

/-- A message of the required fields, all zero but its type and key, and these attributes. -/
def sampleMessage (fields : List Field) (code : UInt8) (more : List Attribute) : Bytes :=
  ((fields.filter fun f => f.required && f.kind ≠ authenticator).map (fun f => Attribute.mk f.kind
      (if f.kind = messageTypeKind then [code]
      else if f.kind = publicKey then four else List.replicate f.shortest 0)) ++ more).flatMap
    fun a => Wire.packH a.kind ++ Wire.packH a.value.length ++ a.value

/-- The octets with their tag after those of `previous`. -/
def sealing (kind : Nat) (previous data : Bytes) : Bytes :=
  let zeros := fun n => List.replicate n (0 : UInt8)
  data ++ Wire.packH kind ++ Wire.packH 8 ++
    ((derive sumPrimitives four (zeros 16) (zeros 6) (zeros 16)).toOption.elim []
      fun keys => tag sumPrimitives keys (previous ++ data))

def sampleM1 : Bytes := sampleMessage MessageType.m1.fields 4 []

def sampleM2 : Bytes :=
  let settings := sealing keyWrapAuthenticator []
    (sampleMessage apSettingsFields 0 [⟨vendorExtension, wfaId ++ [6, 1, 0x20]⟩])
  let padding := 16 - settings.length % 16
  sealing authenticator sampleM1 (sampleMessage MessageType.m2.fields 5 [⟨encryptedSettings,
    List.replicate 16 0 ++ settings ++ List.replicate padding (UInt8.ofNat padding)⟩])

/-- One sealed M2 is taken; with an octet of it changed it is not. -/
theorem m2_set_one :
    ∃ set envelopes, decodeRadioPayloads (transcript sumPrimitives sampleM1) [sampleM2] 1 false = .ok set ∧
      set.bsses.map (·.multiApFlags) = [0x20] ∧
      Whole sumPrimitives sampleM1 [sampleM2] false set envelopes ∧
      (decodeRadioPayloads (transcript sumPrimitives sampleM1) [sampleM2.set 4 1] 1 false).isOk = false := by
  have hone : (decodeRadioPayloads (transcript sumPrimitives sampleM1) [sampleM2] 1 false).toOption.map
      (·.bsses.map (·.multiApFlags)) = some [0x20] := by decide +kernel
  cases hset : decodeRadioPayloads (transcript sumPrimitives sampleM1) [sampleM2] 1 false with
  | error e =>
    rw [hset] at hone
    cases hone
  | ok set =>
    rw [hset] at hone
    obtain ⟨envelopes, hwhole⟩ := (m2_set_whole sumPrimitives sampleM1 [sampleM2] 1 false).1 set hset
    exact ⟨set, envelopes, rfl, Option.some.inj hone, hwhole, by decide +kernel⟩

end Emosa.Wsc
