import Batter.AtRest.Crypto

/-!
# Histories of sealed records

A history is a list of calls that seal records or rewrap headers, by any keyrings and
under any contexts.  Next to the encryptions made, it keeps for each sealed record
its headers: the one it was sealed with and those that rewrapping gave.

`Genuine` says that the encryptions are exactly those of the sealed records and of
their headers.  So whatever parts are put together, opening succeeds only when all
of them belong to one record.
-/

namespace Batter.AtRest

open RustStd Bytes List

variable {binding : Binding} {context : Context} {secret : KeyId → SecretKey}
variable {plaintext : List UInt8} {random : Random} {record : Record} {payload : SealedPayload}

section Operations

variable [Aes256Gcm] [Hkdf]
variable {keyring : Keyring} {record' : Record}
variable {envelope output : Envelope}
variable {dataKey : SecretKey}

/-- The encryption that a header's wrapper comes from, if it is the one of a data key. -/
def Envelope.wrapping (secret : KeyId → SecretKey) (context : Context) (dataKey : SecretKey)
    (envelope : Envelope) : Aead.Encryption SecretKey Nonce (List UInt8) (List UInt8) :=
  wrappingEncryption (secret envelope.wrappedKey.keyId) context envelope.descriptor
    envelope.wrappedKey.keyId envelope.wrappedKey.nonce dataKey

/-- A header wraps a data key under a context. -/
structure Envelope.Wraps (secret : KeyId → SecretKey) (record : Record) (context : Context)
    (dataKey : SecretKey) (envelope : Envelope) : Prop where
  recorded : envelope.wrapping secret context dataKey ∈ record
  ciphertext : (envelope.wrapping secret context dataKey).ciphertext =
    envelope.wrappedKey.encryptedDataKey.toList

theorem Envelope.Wraps.mono (h : envelope.Wraps secret record context dataKey)
    (hrecord : ∀ enc ∈ record, enc ∈ record') : envelope.Wraps secret record' context dataKey :=
  ⟨hrecord _ h.recorded, h.ciphertext⟩

/-- A keyring unwraps what is wrapped under a key it holds. -/
theorem Keyring.unwrapDataKey_eq_ok (h : keyring.Agrees secret) :
    keyring.unwrapDataKey record context envelope = .ok dataKey ↔
      keyring.Holds envelope.wrappedKey.keyId ∧ envelope.Wraps secret record context dataKey := by
  simp only [unwrapDataKey, bind_eq_ok, keyring.key_eq_ok h, require_eq_ok,
    Aead.decrypt_eq_some_iff]
  constructor
  · rintro ⟨_, ⟨hholds, rfl⟩, bytes, ⟨hmem, hct⟩, hlen⟩
    split_ifs at hlen with h32
    cases hlen
    exact ⟨hholds, hmem, hct⟩
  · rintro ⟨hholds, hwraps⟩
    refine ⟨_, ⟨hholds, rfl⟩, dataKey.toList, ⟨hwraps.recorded, hwraps.ciphertext⟩, ?_⟩
    rw [dif_pos (List.Vector.toList_length dataKey)]
    rfl

/-- A header wraps at most one data key under a context. -/
theorem Envelope.Wraps.unique {dataKey' : SecretKey}
    (h : envelope.Wraps secret record context dataKey)
    (h' : envelope.Wraps secret record' context dataKey') : dataKey = dataKey' :=
  List.Vector.toList_injective
    (Aead.Scheme.encrypt_injective _ _ _ (h.ciphertext.trans h'.ciphertext.symm))

/-- What opening needs. -/
theorem Keyring.open_eq_ok (h : keyring.Agrees secret) :
    keyring.open record context payload = .ok plaintext ↔
      keyring.Holds payload.envelope.wrappedKey.keyId ∧ ∃ dataKey,
        payload.envelope.Wraps secret record context dataKey ∧
        payloadEncryption context payload.envelope.descriptor dataKey plaintext ∈ record ∧
        (payloadEncryption context payload.envelope.descriptor dataKey plaintext).ciphertext =
          payload.ciphertext := by
  simp only [Keyring.open, bind_eq_ok, exists_unit, keyring.unwrapDataKey_eq_ok h, rejectIf_eq_ok,
    require_eq_ok, Aead.decrypt_eq_some_iff, decide_eq_false_iff_not, not_lt]
  constructor
  · rintro ⟨dataKey, ⟨hholds, hwraps⟩, _, hbody⟩
    exact ⟨hholds, dataKey, hwraps, hbody⟩
  · rintro ⟨hholds, dataKey, hwraps, hbody⟩
    exact ⟨dataKey, ⟨hholds, hwraps⟩, payload.bounded.1, hbody⟩

/-- The wrapper made for a data key wraps it. -/
theorem wraps_wrapperOf {desc : ContentDescriptor} {keyId : KeyId} {nonce : Nonce}
    (hmem : wrappingEncryption (secret keyId) context desc keyId nonce dataKey ∈ record) :
    Envelope.Wraps secret record context dataKey
      ⟨desc, wrapperOf (secret keyId) context desc keyId nonce dataKey⟩ :=
  ⟨hmem, rfl⟩

variable (h : keyring.Agrees secret)
include h

/-- What sealing leaves. -/
theorem Keyring.sealWithRandom_eq_ok
    (hok : keyring.sealWithRandom record context plaintext random = .ok (payload, record')) :
    ∃ dataKey, random.dataKey = some dataKey ∧
      record' = payload.envelope.wrapping secret context dataKey ::
        payloadEncryption context payload.envelope.descriptor dataKey plaintext :: record ∧
      payload.envelope.Wraps secret record' context dataKey ∧
      (payloadEncryption context payload.envelope.descriptor dataKey plaintext).ciphertext =
        payload.ciphertext := by
  simp only [sealWithRandom, currentKey, bind_eq_ok, exists_unit, rejectIf_eq_ok, require_eq_ok,
    keyring.key_eq_ok h, pure_eq_ok] at hok
  obtain ⟨_, dataKey, hdataKey, payloadNonce, _, wrappingNonce, _, _, ⟨_, rfl⟩, payload', hparts,
    hres⟩ := hok
  rw [SealedPayload.fromParts] at hparts
  split_ifs at hparts
  cases hparts
  obtain ⟨rfl, rfl⟩ := Prod.mk.inj hres
  exact ⟨dataKey, hdataKey, rfl, wraps_wrapperOf mem_cons_self, rfl⟩

/-- What rewrapping leaves: the header as it was, or one of the current key. -/
theorem Keyring.rewrapEnvelope_eq_ok
    (hok : keyring.rewrapEnvelope record context envelope random = .ok (output, record')) :
    ∃ dataKey, envelope.Wraps secret record context dataKey ∧
      output.descriptor = envelope.descriptor ∧ output.wrappedKey.keyId = keyring.currentId ∧
      output.Wraps secret record' context dataKey ∧
      (output = envelope ∧ record' = record ∨
        record' = output.wrapping secret context dataKey :: record) := by
  simp only [rewrapEnvelope, rewrapWithRandom, bind_eq_ok, keyring.unwrapDataKey_eq_ok h] at hok
  obtain ⟨⟨wrappedKey, after⟩, ⟨dataKey, ⟨_, hwraps⟩, hrewrap⟩, hres⟩ := hok
  obtain ⟨rfl, rfl⟩ := Prod.mk.inj (pure_eq_ok.mp hres)
  refine ⟨dataKey, hwraps, rfl, ?_⟩
  split_ifs at hrewrap with hcur
  · obtain ⟨rfl, rfl⟩ := Prod.mk.inj (pure_eq_ok.mp hrewrap)
    exact ⟨hcur, hwraps, .inl ⟨rfl, rfl⟩⟩
  · simp only [currentKey, bind_eq_ok, require_eq_ok, keyring.key_eq_ok h, pure_eq_ok] at hrewrap
    obtain ⟨nonce, _, _, ⟨_, rfl⟩, hwrapped⟩ := hrewrap
    obtain ⟨rfl, rfl⟩ := Prod.mk.inj hwrapped
    exact ⟨rfl, wraps_wrapperOf mem_cons_self, .inr rfl⟩

/-- A keyring that holds the key of a wrapper rewraps it. -/
theorem Keyring.exists_rewrapEnvelope (hholds : keyring.Holds envelope.wrappedKey.keyId)
    (hwraps : envelope.Wraps secret record context dataKey)
    (hrandom : random.wrappingNonce.isSome = true) :
    ∃ output record', keyring.rewrapEnvelope record context envelope random =
      .ok (output, record') := by
  have hunwrap := (keyring.unwrapDataKey_eq_ok h).mpr ⟨hholds, hwraps⟩
  have hcur : keyring.currentKey = .ok (secret keyring.currentId) :=
    (keyring.key_eq_ok h).mpr ⟨keyring.current, rfl⟩
  obtain ⟨nonce, hnonce⟩ := Option.isSome_iff_exists.mp hrandom
  have hrewrap : ∃ result, keyring.rewrapWithRandom record context envelope random =
      .ok result := by
    by_cases hid : envelope.wrappedKey.keyId = keyring.currentId
    · refine ⟨(envelope.wrappedKey, record), ?_⟩
      simp only [rewrapWithRandom, bind_eq_ok]
      exact ⟨dataKey, hunwrap, by rw [if_pos hid]; rfl⟩
    · refine ⟨wrapDataKey record context envelope.descriptor keyring.currentId
        (secret keyring.currentId) nonce dataKey, ?_⟩
      simp only [rewrapWithRandom, bind_eq_ok]
      refine ⟨dataKey, hunwrap, ?_⟩
      rw [if_neg hid, hnonce, hcur]
      rfl
  obtain ⟨⟨wrappedKey, after⟩, hres⟩ := hrewrap
  exact ⟨_, _, bind_eq_ok.mpr ⟨_, hres, rfl⟩⟩

end Operations

section History

/-- A call of an application, which makes its context first. -/
inductive Event
  | sealPayload (keyring : Keyring) (binding : Binding) (plaintext : List UInt8) (random : Random)
  | rewrapEnvelope (keyring : Keyring) (binding : Binding) (envelope : Envelope) (random : Random)

/-- The keyring that makes a call. -/
def Event.keyring : Event → Keyring
  | .sealPayload keyring .. => keyring
  | .rewrapEnvelope keyring .. => keyring

/-- The data key that a call draws. -/
def Event.dataKey : Event → Option SecretKey
  | .sealPayload _ _ _ random => random.dataKey
  | .rewrapEnvelope .. => none

/-- A sealed record: what was sealed, the result, and its headers so far. -/
structure SealCall where
  binding : Binding
  context : Context
  plaintext : List UInt8
  dataKey : SecretKey
  payload : SealedPayload
  envelopes : List Envelope

/-- A header of the record was rewrapped under its context. -/
def SealCall.addRewrap (binding : Binding) (envelope output : Envelope) (call : SealCall) :
    SealCall :=
  if call.binding = binding ∧ envelope ∈ call.envelopes then
    { call with envelopes := output :: call.envelopes }
  else call

/-- What a rewrap leaves of a sealed record. -/
theorem SealCall.addRewrap_cases
    (binding : Binding) (envelope output : Envelope) (call : SealCall) :
    call.addRewrap binding envelope output = call ∨
      call.binding = binding ∧ envelope ∈ call.envelopes ∧
        call.addRewrap binding envelope output =
          { call with envelopes := output :: call.envelopes } := by
  rw [addRewrap]
  split_ifs with hrewrapped
  · exact .inr ⟨hrewrapped.1, hrewrapped.2, rfl⟩
  · exact .inl rfl

/-- The encryptions made and the records sealed. -/
structure History where
  record : Record
  seals : List SealCall

variable [Aes256Gcm] [Hkdf]

/-- One call. -/
def History.apply (history : History) : Event → Except Error History
  | .sealPayload keyring binding plaintext random => do
    let context ← binding.context
    let (payload, record) ← keyring.sealWithRandom history.record context plaintext random
    let dataKey ← require .randomnessUnavailable random.dataKey
    return ⟨record, ⟨binding, context, plaintext, dataKey, payload, [payload.envelope]⟩ ::
      history.seals⟩
  | .rewrapEnvelope keyring binding envelope random => do
    let context ← binding.context
    let (output, record) ← keyring.rewrapEnvelope history.record context envelope random
    return ⟨record, history.seals.map (.addRewrap binding envelope output)⟩

/-- The history after a call; a call that fails leaves nothing. -/
def History.after (history : History) (event : Event) : History :=
  match history.apply event with
  | .ok history' => history'
  | .error _ => history

/-- The history of a list of calls. -/
def historyOf (events : List Event) : History :=
  events.foldl .after ⟨[], []⟩

theorem historyOf_append (events : List Event) (event : Event) :
    historyOf (events ++ [event]) = (historyOf events).after event := by
  rw [historyOf, foldl_append]
  rfl

/-- The encryption of the body of a record. -/
def SealCall.body (call : SealCall) : Aead.Encryption SecretKey Nonce (List UInt8) (List UInt8) :=
  payloadEncryption call.context call.payload.envelope.descriptor call.dataKey call.plaintext

/-- The encryptions are those of the sealed records and of their headers. -/
structure Genuine (secret : KeyId → SecretKey) (history : History) : Prop where
  context : ∀ call ∈ history.seals, call.binding.context = .ok call.context
  body : ∀ call ∈ history.seals, call.body ∈ history.record ∧
    call.body.ciphertext = call.payload.ciphertext
  header : ∀ call ∈ history.seals, ∀ envelope ∈ call.envelopes,
    envelope.descriptor = call.payload.envelope.descriptor ∧
      envelope.Wraps secret history.record call.context call.dataKey
  origin : ∀ encryption ∈ history.record, ∃ call ∈ history.seals, encryption = call.body ∨
    ∃ envelope ∈ call.envelopes, encryption = envelope.wrapping secret call.context call.dataKey

variable {history : History}
variable {envelope output : Envelope} {dataKey : SecretKey}

/-- A header that wraps a data key under a context is a header of a record of this context. -/
theorem Genuine.header_of_wraps (h : Genuine secret history) (hctx : binding.context = .ok context)
    (hwraps : envelope.Wraps secret history.record context dataKey) :
    ∃ call ∈ history.seals, call.binding = binding ∧ call.context = context ∧
      call.dataKey = dataKey ∧ envelope ∈ call.envelopes := by
  obtain ⟨call, hcall, hbody | ⟨header, hheader, heq⟩⟩ := h.origin _ hwraps.recorded
  · exact absurd (congrArg Aead.Encryption.aad hbody).symm payloadAad_ne_wrappingAad
  · have hcallCtx := h.context call hcall
    obtain ⟨hdesc, hwraps'⟩ := h.header call hcall header hheader
    have haad : wrappingAad context envelope.descriptor envelope.wrappedKey.keyId =
        wrappingAad call.context header.descriptor header.wrappedKey.keyId :=
      congrArg Aead.Encryption.aad heq
    have hnonce : envelope.wrappedKey.nonce = header.wrappedKey.nonce :=
      congrArg Aead.Encryption.nonce heq
    have hkey : dataKey.toList = call.dataKey.toList := congrArg Aead.Encryption.plaintext heq
    obtain ⟨hid, hdesc', hencoded⟩ := wrappingAad_inj
      (Binding.context_eq_ok hctx).2.1 (Binding.context_eq_ok hcallCtx).2.1 haad
    have hct : envelope.wrappedKey.encryptedDataKey =
        header.wrappedKey.encryptedDataKey := by
      apply List.Vector.toList_injective
      rw [← hwraps.ciphertext, ← hwraps'.ciphertext, heq]
    have hsame : envelope = header := by
      obtain ⟨desc, keyId, nonce, cipher⟩ := envelope
      obtain ⟨desc', keyId', nonce', cipher'⟩ := header
      cases hid
      cases hdesc'
      cases hnonce
      cases hct
      rfl
    have hbinding := Binding.context_inj hcallCtx hctx hencoded.symm
    refine ⟨call, hcall, hbinding, ?_, (List.Vector.toList_injective hkey).symm, hsame ▸ hheader⟩
    rw [hbinding, hctx] at hcallCtx
    exact (Except.ok.inj hcallCtx).symm

variable {keyring : Keyring}

variable (h : Genuine secret history) (hring : keyring.Agrees secret)
  (hctx : binding.context = .ok context)
include h hring hctx

/-- Sealing keeps the encryptions genuine. -/
theorem Genuine.sealPayload
    (hseal : keyring.sealWithRandom history.record context plaintext random = .ok (payload, record))
    (hrandom : random.dataKey = some dataKey) :
    Genuine secret ⟨record, ⟨binding, context, plaintext, dataKey, payload, [payload.envelope]⟩ ::
      history.seals⟩ := by
  obtain ⟨dataKey', hdataKey, rfl, hwraps, hct⟩ := keyring.sealWithRandom_eq_ok hring hseal
  obtain rfl : dataKey' = dataKey := Option.some.inj (hdataKey.symm.trans hrandom)
  have hgrow : ∀ enc ∈ history.record, enc ∈
      payload.envelope.wrapping secret context dataKey' ::
        payloadEncryption context payload.envelope.descriptor dataKey' plaintext ::
        history.record :=
    fun _ hmem => mem_cons_of_mem _ (mem_cons_of_mem _ hmem)
  constructor
  · rw [forall_mem_cons]
    exact ⟨hctx, h.context⟩
  · rw [forall_mem_cons]
    exact ⟨⟨mem_cons_of_mem _ mem_cons_self, hct⟩,
      fun call hcall => ⟨hgrow _ (h.body call hcall).1, (h.body call hcall).2⟩⟩
  · rw [forall_mem_cons]
    refine ⟨forall_mem_singleton.mpr ⟨rfl, hwraps⟩, fun call hcall envelope henv => ?_⟩
    obtain ⟨hdesc, hold⟩ := h.header call hcall envelope henv
    exact ⟨hdesc, hold.mono hgrow⟩
  · intro enc hmem
    rcases mem_cons.mp hmem with rfl | hmem
    · exact ⟨_, mem_cons_self, .inr ⟨_, mem_singleton_self _, rfl⟩⟩
    rcases mem_cons.mp hmem with rfl | hmem
    · exact ⟨_, mem_cons_self, .inl rfl⟩
    · obtain ⟨call, hcall, horigin⟩ := h.origin enc hmem
      exact ⟨call, mem_cons_of_mem _ hcall, horigin⟩

/-- Rewrapping keeps the encryptions genuine. -/
theorem Genuine.rewrapEnvelope
    (hrewrap : keyring.rewrapEnvelope history.record context envelope random =
      .ok (output, record)) :
    Genuine secret ⟨record, history.seals.map (SealCall.addRewrap binding envelope output)⟩ := by
  obtain ⟨dataKey, hwraps, hdesc, _, hwraps', hrecord⟩ := keyring.rewrapEnvelope_eq_ok hring hrewrap
  have hgrow : ∀ enc ∈ history.record, enc ∈ record := by
    intro enc hmem
    rcases hrecord with ⟨_, rfl⟩ | rfl
    · exact hmem
    · exact mem_cons_of_mem _ hmem
  constructor
  · rw [forall_mem_map]
    intro call hcall
    rcases call.addRewrap_cases binding envelope output with hsame | ⟨_, _, hadded⟩
    · rw [hsame]
      exact h.context call hcall
    · rw [hadded]
      exact h.context call hcall
  · rw [forall_mem_map]
    intro call hcall
    obtain ⟨hmem, hct⟩ := h.body call hcall
    rcases call.addRewrap_cases binding envelope output with hsame | ⟨_, _, hadded⟩
    · rw [hsame]
      exact ⟨hgrow _ hmem, hct⟩
    · rw [hadded]
      exact ⟨hgrow _ hmem, hct⟩
  · rw [forall_mem_map]
    intro call hcall header hheader
    rcases call.addRewrap_cases binding envelope output with hsame | ⟨hbinding, hmem, hadded⟩
    · rw [hsame] at hheader ⊢
      obtain ⟨hsameDesc, hold⟩ := h.header call hcall header hheader
      exact ⟨hsameDesc, hold.mono hgrow⟩
    · rw [hadded] at hheader ⊢
      rcases mem_cons.mp hheader with rfl | hheader
      · obtain ⟨hsameDesc, hold⟩ := h.header call hcall envelope hmem
        have hsameCtx : call.context = context :=
          Except.ok.inj ((h.context call hcall).symm.trans (hbinding ▸ hctx))
        rw [hsameCtx] at hold
        have hkey := hold.unique hwraps
        refine ⟨hdesc.trans hsameDesc, ?_⟩
        change Envelope.Wraps secret record call.context call.dataKey header
        rw [hsameCtx, hkey]
        exact hwraps'
      · obtain ⟨hsameDesc, hold⟩ := h.header call hcall header hheader
        exact ⟨hsameDesc, hold.mono hgrow⟩
  · have hold : ∀ enc ∈ history.record, ∃ call ∈ history.seals.map
        (SealCall.addRewrap binding envelope output), enc = call.body ∨
        ∃ header ∈ call.envelopes, enc = header.wrapping secret call.context call.dataKey := by
      intro enc hmem
      obtain ⟨call, hcall, horigin⟩ := h.origin enc hmem
      refine ⟨_, mem_map_of_mem hcall, ?_⟩
      rcases call.addRewrap_cases binding envelope output with hsame | ⟨_, _, hadded⟩
      · exact hsame.symm ▸ horigin
      · rw [hadded]
        rcases horigin with hbody | ⟨header, hheader, heq⟩
        · exact .inl hbody
        · exact .inr ⟨header, mem_cons_of_mem _ hheader, heq⟩
    rcases hrecord with ⟨_, rfl⟩ | rfl
    · exact hold
    · rw [forall_mem_cons]
      refine ⟨?_, hold⟩
      obtain ⟨call, hcall, hbinding, hsameCtx, hkey, hmem⟩ := h.header_of_wraps hctx hwraps
      refine ⟨_, mem_map_of_mem hcall, ?_⟩
      have hadded : call.addRewrap binding envelope output =
          { call with envelopes := output :: call.envelopes } := if_pos ⟨hbinding, hmem⟩
      rw [hadded]
      exact .inr ⟨output, mem_cons_self, by rw [hsameCtx, hkey]⟩

end History

section Runs

variable [Aes256Gcm] [Hkdf]
variable {history : History} {event : Event}

/-- A call keeps the encryptions genuine. -/
theorem Genuine.after (h : Genuine secret history) (hring : event.keyring.Agrees secret) :
    Genuine secret (history.after event) := by
  rw [History.after]
  cases happly : history.apply event with
  | error error => exact h
  | ok history' =>
    cases event with
    | sealPayload keyring binding plaintext random =>
      simp only [History.apply, bind_eq_ok, require_eq_ok, pure_eq_ok] at happly
      obtain ⟨context, hctx, ⟨payload, record⟩, hseal, dataKey, hrandom, rfl⟩ := happly
      exact h.sealPayload hring hctx hseal hrandom
    | rewrapEnvelope keyring binding envelope random =>
      simp only [History.apply, bind_eq_ok, pure_eq_ok] at happly
      obtain ⟨context, hctx, ⟨output, record⟩, hrewrap, rfl⟩ := happly
      exact h.rewrapEnvelope hring hctx hrewrap

/-- All encryptions of a history are genuine. -/
theorem genuine_historyOf (events : List Event)
    (hrings : ∀ event ∈ events, event.keyring.Agrees secret) :
    Genuine secret (historyOf events) := by
  induction events using List.reverseRecOn with
  | nil =>
    constructor <;> intro _ hmem <;> exact absurd hmem not_mem_nil
  | append_singleton events event ih =>
    rw [historyOf_append]
    rw [forall_mem_append, forall_mem_singleton] at hrings
    exact (ih hrings.1).after hrings.2

/-- A call seals at most one record, under the data key it draws. -/
theorem dataKeys_after (history : History) (event : Event) :
    (history.after event).seals.map SealCall.dataKey = history.seals.map SealCall.dataKey ∨
      ∃ dataKey, event.dataKey = some dataKey ∧
        (history.after event).seals.map SealCall.dataKey =
          dataKey :: history.seals.map SealCall.dataKey := by
  rw [History.after]
  cases happly : history.apply event with
  | error error => exact .inl rfl
  | ok history' =>
    cases event with
    | sealPayload keyring binding plaintext random =>
      simp only [History.apply, bind_eq_ok, require_eq_ok, pure_eq_ok] at happly
      obtain ⟨_, _, _, _, dataKey, hrandom, rfl⟩ := happly
      exact .inr ⟨dataKey, hrandom, rfl⟩
    | rewrapEnvelope keyring binding envelope random =>
      simp only [History.apply, bind_eq_ok, pure_eq_ok] at happly
      obtain ⟨_, _, ⟨output, record⟩, _, rfl⟩ := happly
      left
      rw [map_map]
      refine map_congr_left fun call _ => ?_
      rcases call.addRewrap_cases binding envelope output with hsame | ⟨_, _, hadded⟩
      · exact congrArg SealCall.dataKey hsame
      · change (call.addRewrap binding envelope output).dataKey = call.dataKey
        rw [hadded]

/-- Sealed records have different data keys when all that were drawn are different. -/
theorem nodup_dataKeys (events : List Event) (hfresh : (events.filterMap Event.dataKey).Nodup) :
    ((historyOf events).seals.map SealCall.dataKey).Nodup ∧
      ∀ dataKey ∈ (historyOf events).seals.map SealCall.dataKey,
        dataKey ∈ events.filterMap Event.dataKey := by
  induction events using List.reverseRecOn with
  | nil => exact ⟨nodup_nil, fun _ hmem => absurd hmem not_mem_nil⟩
  | append_singleton events event ih =>
    rw [filterMap_append] at hfresh ⊢
    obtain ⟨hnodup, _, hdisj⟩ := nodup_append.mp hfresh
    obtain ⟨hdist, hdrawn⟩ := ih hnodup
    rw [historyOf_append]
    rcases dataKeys_after (historyOf events) event with hsame | ⟨dataKey, hkey, hnew⟩
    · rw [hsame]
      exact ⟨hdist, fun key hmem => mem_append_left _ (hdrawn key hmem)⟩
    · have hlast : dataKey ∈ [event].filterMap Event.dataKey := by simp [hkey]
      rw [hnew, nodup_cons, forall_mem_cons]
      refine ⟨⟨fun hmem => ?_, hdist⟩, mem_append_right _ hlast,
        fun key hmem => mem_append_left _ (hdrawn key hmem)⟩
      exact hdisj _ (hdrawn dataKey hmem) _ hlast rfl

end Runs

section Splicing

variable [Aes256Gcm] [Hkdf]
variable {history : History} {keyring : Keyring}

/-- All parts of a payload belong to one sealed record. -/
structure SealCall.Owns (call : SealCall) (binding : Binding) (payload : SealedPayload) : Prop where
  binding : call.binding = binding
  descriptor : payload.envelope.descriptor = call.payload.envelope.descriptor
  body : payload.ciphertext = call.payload.ciphertext
  header : payload.envelope ∈ call.envelopes

/-- Opening gives a plaintext exactly for the parts of one record sealed with it. -/
theorem Genuine.open_eq_ok (h : Genuine secret history)
    (hdist : (history.seals.map SealCall.dataKey).Nodup) (hring : keyring.Agrees secret)
    (hctx : binding.context = .ok context) :
    keyring.open history.record context payload = .ok plaintext ↔
      keyring.Holds payload.envelope.wrappedKey.keyId ∧
        ∃ call ∈ history.seals, call.plaintext = plaintext ∧ call.Owns binding payload := by
  rw [Keyring.open_eq_ok hring]
  refine and_congr_right fun _ => ?_
  constructor
  · rintro ⟨dataKey, hwraps, hmem, hct⟩
    obtain ⟨call, hcall, hbinding, _, hkey, hheader⟩ := h.header_of_wraps hctx hwraps
    obtain ⟨hdesc, _⟩ := h.header call hcall _ hheader
    obtain ⟨other, hother, hbody | ⟨header, _, hwrapping⟩⟩ := h.origin _ hmem
    · have hsameKey : call.dataKey = other.dataKey :=
        hkey.trans (congrArg Aead.Encryption.key hbody)
      obtain rfl := inj_on_of_nodup_map hdist hcall hother hsameKey
      refine ⟨call, hcall, (congrArg Aead.Encryption.plaintext hbody).symm, hbinding, hdesc,
        ?_, hheader⟩
      rw [← hct, hbody]
      exact (h.body call hcall).2
    · exact absurd (congrArg Aead.Encryption.aad hwrapping) payloadAad_ne_wrappingAad
  · rintro ⟨call, hcall, rfl, howns⟩
    have hsameCtx : call.context = context :=
      Except.ok.inj ((h.context call hcall).symm.trans (howns.binding ▸ hctx))
    obtain ⟨_, hwraps⟩ := h.header call hcall _ howns.header
    obtain ⟨hmem, hct⟩ := h.body call hcall
    have hbody : call.body = payloadEncryption context payload.envelope.descriptor call.dataKey
        call.plaintext := by
      rw [SealCall.body, hsameCtx, howns.descriptor]
    rw [hsameCtx] at hwraps
    rw [hbody] at hmem hct
    exact ⟨call.dataKey, hwraps, hmem, hct.trans howns.body.symm⟩

/-- A header of a record can be rewrapped, and whoever holds the new key opens the record with
the new header. -/
def Rotates (secret : KeyId → SecretKey) (events : List Event) (keyring : Keyring)
    (call : SealCall) (envelope : Envelope) (random : Random) : Prop :=
  ∃ output record,
    keyring.rewrapEnvelope (historyOf events).record call.context envelope random =
      .ok (output, record) ∧
    output.descriptor = envelope.descriptor ∧ output.wrappedKey.keyId = keyring.currentId ∧
    ∀ reader : Keyring, reader.Agrees secret → reader.Holds keyring.currentId →
      ∀ stored : SealedPayload, stored.envelope = output →
        stored.ciphertext = call.payload.ciphertext →
        reader.open (historyOf
          (events ++ [.rewrapEnvelope keyring call.binding envelope random])).record call.context
            stored = .ok call.plaintext

/-- Whoever holds the key of a header of a record can rotate it. -/
theorem rotates {events : List Event} {call : SealCall} {envelope : Envelope}
    (hrings : ∀ event ∈ events, event.keyring.Agrees secret)
    (hfresh : (events.filterMap Event.dataKey).Nodup) (hring : keyring.Agrees secret)
    (hcall : call ∈ (historyOf events).seals) (henv : envelope ∈ call.envelopes)
    (hholds : keyring.Holds envelope.wrappedKey.keyId)
    (hrandom : random.wrappingNonce.isSome = true) :
    Rotates secret events keyring call envelope random := by
  have hgenuine := genuine_historyOf events hrings
  have hctx := hgenuine.context call hcall
  obtain ⟨hdesc, hwraps⟩ := hgenuine.header call hcall envelope henv
  obtain ⟨output, record, hrewrap⟩ := keyring.exists_rewrapEnvelope hring hholds hwraps hrandom
  obtain ⟨_, _, hsame, hid, _⟩ := keyring.rewrapEnvelope_eq_ok hring hrewrap
  refine ⟨output, record, hrewrap, hsame, hid, fun reader hreader hreaderHolds stored hstored
    hbody => ?_⟩
  have hrings' : ∀ event ∈ events ++ [Event.rewrapEnvelope keyring call.binding envelope random],
      event.keyring.Agrees secret := by
    rw [forall_mem_append, forall_mem_singleton]
    exact ⟨hrings, hring⟩
  have hfresh' : ((events ++ [Event.rewrapEnvelope keyring call.binding envelope random]).filterMap
      Event.dataKey).Nodup := by
    rw [filterMap_append]
    change (events.filterMap Event.dataKey ++ []).Nodup
    rw [append_nil]
    exact hfresh
  have hafter : (historyOf
      (events ++ [.rewrapEnvelope keyring call.binding envelope random])).seals =
      (historyOf events).seals.map (SealCall.addRewrap call.binding envelope output) := by
    have happly : (historyOf events).apply (.rewrapEnvelope keyring call.binding envelope random) =
        .ok ⟨record, (historyOf events).seals.map
          (SealCall.addRewrap call.binding envelope output)⟩ := by
      simp only [History.apply, bind_eq_ok]
      exact ⟨_, hctx, _, hrewrap, rfl⟩
    rw [historyOf_append, History.after, happly]
  have hadded : call.addRewrap call.binding envelope output =
      { call with envelopes := output :: call.envelopes } := if_pos ⟨rfl, henv⟩
  refine ((genuine_historyOf _ hrings').open_eq_ok (nodup_dataKeys _ hfresh').1 hreader
    hctx).mpr ⟨hstored ▸ hid ▸ hreaderHolds, call.addRewrap call.binding envelope output,
      hafter ▸ mem_map_of_mem hcall, ?_, ?_⟩
  · rw [hadded]
  · rw [hadded]
    exact ⟨rfl, hstored ▸ hsame.trans hdesc, hbody, hstored ▸ mem_cons_self⟩

/-- Sealed records cannot be spliced and survive rotation. -/
theorem sealed_records_are_not_spliced (secret : KeyId → SecretKey) (events : List Event)
    (hkeyrings : ∀ event ∈ events, event.keyring.Agrees secret)
    (hfresh : (events.filterMap Event.dataKey).Nodup) (keyring : Keyring)
    (hkeyring : keyring.Agrees secret) :
    (∀ binding context payload plaintext, Binding.context binding = .ok context →
      (keyring.open (historyOf events).record context payload = .ok plaintext ↔
        keyring.Holds payload.envelope.wrappedKey.keyId ∧
          ∃ call ∈ (historyOf events).seals, call.plaintext = plaintext ∧
            call.Owns binding payload)) ∧
      ∀ call ∈ (historyOf events).seals, ∀ envelope ∈ call.envelopes,
        keyring.Holds envelope.wrappedKey.keyId → ∀ random : Random,
        random.wrappingNonce.isSome = true →
          Rotates secret events keyring call envelope random := by
  have hgenuine := genuine_historyOf events hkeyrings
  have hdist := (nodup_dataKeys events hfresh).1
  refine ⟨fun binding context payload plaintext hctx =>
    hgenuine.open_eq_ok hdist hkeyring hctx, ?_⟩
  intro call hcall envelope henv hholds random hrandom
  exact rotates hkeyrings hfresh hkeyring hcall henv hholds hrandom

end Splicing

/-- A scheme that appends a tag of zeros. -/
@[reducible]
def zeroTagGcm : Aes256Gcm where
  encrypt _ _ _ plaintext := plaintext ++ List.replicate tagBytes 0
  encrypt_injective _ _ _ _ _ h := List.append_cancel_right h
  length_encrypt _ _ _ _ := by rw [List.length_append, List.length_replicate]

/-- A derivation that returns the master key. -/
@[reducible]
def masterHkdf : Hkdf where
  expand _ key _ := key

def primaryId : KeyId := ⟨"primary", by decide⟩
def nextId : KeyId := ⟨"next", by decide⟩

/-- The two master keys of the sample. -/
def sampleSecret (keyId : KeyId) : SecretKey :=
  .replicate secretKeyBytes (if keyId = nextId then 8 else 7)

/-- The keyring before the rotation. -/
def primaryKeyring : Keyring where
  currentId := primaryId
  keys := [(primaryId, sampleSecret primaryId)]
  distinct := by decide
  current := by decide

/-- The keyring that rotates to the next key. -/
def nextKeyring : Keyring where
  currentId := nextId
  keys := [(primaryId, sampleSecret primaryId), (nextId, sampleSecret nextId)]
  distinct := by decide
  current := by decide

def sampleRow : Binding := .row "example" "record" [1] [2] "bytes-v1"
def sampleToken : Binding := .tenantToken "example" "session" [3] "bytes-v1"

/-- The header of the row, with a wrapper of its data key under a key. -/
def sampleEnvelope (keyId : KeyId) (nonce : UInt8) : Envelope :=
  ⟨.new (.replicate nonceBytes 1), ⟨keyId, .replicate nonceBytes nonce,
    ⟨List.replicate secretKeyBytes 9 ++ List.replicate tagBytes 0, by decide⟩⟩⟩

/-- A row and a token are sealed, and the header of the row is rewrapped to the next key. -/
def sampleEvents : List Event :=
  [.sealPayload primaryKeyring sampleRow [4, 2] ⟨some (.replicate secretKeyBytes 9),
      some (.replicate nonceBytes 1), some (.replicate nonceBytes 2)⟩,
    .sealPayload primaryKeyring sampleToken [5] ⟨some (.replicate secretKeyBytes 10),
      some (.replicate nonceBytes 3), some (.replicate nonceBytes 4)⟩,
    .rewrapEnvelope nextKeyring sampleRow (sampleEnvelope primaryId 2)
      ⟨none, none, some (.replicate nonceBytes 6)⟩]

/-- The rewrapped header of the row with a body. -/
def samplePayload (plaintext : List UInt8) (h : plaintext.length ≤ maxPlaintextBytes) :
    SealedPayload :=
  ⟨sampleEnvelope nextId 6, plaintext ++ List.replicate tagBytes 0, by
    rw [List.length_append, List.length_replicate, maxBodyBytes]
    omega⟩

/-- The rewrapped row is opened, and the body of the token under its header is not. -/
theorem rewrapped_row_is_opened_alone : letI := zeroTagGcm
    letI := masterHkdf
    ∃ context, sampleRow.context = .ok context ∧
      nextKeyring.open (historyOf sampleEvents).record context
        (samplePayload [4, 2] (by decide)) = .ok [4, 2] ∧
      ∀ plaintext, nextKeyring.open (historyOf sampleEvents).record context
        (samplePayload [5] (by decide)) ≠ .ok plaintext := by
  let _ := zeroTagGcm
  let _ := masterHkdf
  have hseals : (historyOf sampleEvents).seals.map (fun call => (call.binding, call.plaintext,
      call.payload.envelope.descriptor, call.payload.ciphertext, call.envelopes.head?)) =
      [(sampleToken, [5], .new (.replicate nonceBytes 3), [5] ++ List.replicate tagBytes 0,
          (historyOf sampleEvents).seals.head?.map (·.payload.envelope)),
        (sampleRow, [4, 2], .new (.replicate nonceBytes 1), [4, 2] ++ List.replicate tagBytes 0,
          some (sampleEnvelope nextId 6))] := by
    decide +kernel
  have hrings : ∀ event ∈ sampleEvents, event.keyring.Agrees sampleSecret := by
    unfold Keyring.Agrees
    decide +kernel
  have hring : nextKeyring.Agrees sampleSecret := by
    unfold Keyring.Agrees
    decide +kernel
  have hopen := (sealed_records_are_not_spliced sampleSecret sampleEvents hrings
    (by decide +kernel) nextKeyring hring).1
  obtain ⟨call, hcall, hcols⟩ := List.mem_map.mp (hseals ▸ List.mem_cons_of_mem _
    (List.mem_singleton_self _))
  simp only [Prod.mk.injEq] at hcols
  obtain ⟨hbinding, hplaintext, hdesc, hbody, hheader⟩ := hcols
  have hctx := (genuine_historyOf sampleEvents hrings).context call hcall
  rw [hbinding] at hctx
  refine ⟨call.context, hctx, ?_, fun plaintext hspliced => ?_⟩
  · exact (hopen _ _ _ _ hctx).mpr ⟨nextKeyring.current, call, hcall, hplaintext, hbinding,
      hdesc.symm, hbody.symm, List.mem_of_mem_head? hheader⟩
  · obtain ⟨-, other, hother, -, howns⟩ := (hopen _ _ _ _ hctx).mp hspliced
    have hcols := List.mem_map_of_mem hother (f := fun call : SealCall =>
      (call.binding, call.payload.ciphertext))
    have hpairs := congrArg (List.map fun cols => (cols.1, cols.2.2.2.1)) hseals
    rw [List.map_map] at hpairs
    have hin := hpairs ▸ hcols
    rw [howns.binding, ← howns.body] at hin
    revert hin
    decide

end Batter.AtRest
