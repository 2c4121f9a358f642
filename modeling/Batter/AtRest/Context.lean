import Batter.Library.Bytes
import Batter.Library.Fallible

/-!
# Contexts of encrypted records

A context says which record a ciphertext belongs to: a row with its owner and
resource, or a token of a tenant, each with a namespace, a purpose and the schema of
the payload.  It is encoded as a version, a kind and the components behind their
lengths.  `Binding.context_inj` says that the encoding determines all of them.
-/

namespace Batter.AtRest

open RustStd Bytes List

/-- Failures of validation and of cryptography. -/
inductive Error
  | keyUnavailable
  | invalidContext
  | plaintextTooLarge
  | malformedEncoding
  | authenticationFailed
  | randomnessUnavailable
  deriving DecidableEq

def formatVersion : UInt8 := 1
def secretKeyBytes : ℕ := 32
def nonceBytes : ℕ := 12
def tagBytes : ℕ := 16
def maxKeyIdBytes : ℕ := 128
def maxContextLabelBytes : ℕ := 64
def maxBindingComponentBytes : ℕ := 128
def maxContextBytes : ℕ := 512
def maxPlaintextBytes : ℕ := 64 * 1024 * 1024
def maxBodyBytes : ℕ := maxPlaintextBytes + tagBytes

def contextCodecVersion : UInt8 := 1
def rowBinding : UInt8 := 1
def tenantTokenBinding : UInt8 := 2

def isAsciiLowercase (byte : UInt8) : Bool :=
  97 ≤ byte && byte ≤ 122

def isAsciiUppercase (byte : UInt8) : Bool :=
  65 ≤ byte && byte ≤ 90

def isAsciiDigit (byte : UInt8) : Bool :=
  48 ≤ byte && byte ≤ 57

/-- The punctuation of labels and key identifiers. -/
def isLabelPunctuation (byte : UInt8) : Bool :=
  byte ∈ asBytes "._:-"

def validateLabel (value : String) : Except Error Unit :=
  rejectIf ((asBytes value).isEmpty || maxContextLabelBytes < (asBytes value).length ||
    !(asBytes value).all fun byte =>
      isAsciiLowercase byte || isAsciiDigit byte || isLabelPunctuation byte) .invalidContext

def validateBinding (value : List UInt8) : Except Error Unit :=
  rejectIf (value.isEmpty || maxBindingComponentBytes < value.length) .invalidContext

def validateTotal (encoded : List UInt8) : Except Error Unit :=
  rejectIf (maxContextBytes < encoded.length) .invalidContext

theorem validateLabel_eq_ok {value : String} (h : validateLabel value = .ok ()) :
    (asBytes value).length ≤ maxContextLabelBytes := by
  simp only [validateLabel, rejectIf_eq_ok, Bool.or_eq_false_iff, decide_eq_false_iff_not,
    not_lt] at h
  exact h.1.2

theorem validateBinding_eq_ok {value : List UInt8} (h : validateBinding value = .ok ()) :
    value.length ≤ maxBindingComponentBytes := by
  simp only [validateBinding, rejectIf_eq_ok, Bool.or_eq_false_iff, decide_eq_false_iff_not,
    not_lt] at h
  exact h.2

/-- An encoded context, with the places of its namespace and its purpose. -/
structure Context where
  encoded : List UInt8
  namespaceRange : ℕ × ℕ
  purposeRange : ℕ × ℕ
  deriving DecidableEq

/-- The bytes of a range. -/
def slice (bytes : List UInt8) (range : ℕ × ℕ) : List UInt8 :=
  (bytes.drop range.1).take (range.2 - range.1)

def Context.namespaceBytes (context : Context) : List UInt8 :=
  slice context.encoded context.namespaceRange

def Context.purposeBytes (context : Context) : List UInt8 :=
  slice context.encoded context.purposeRange

/-- `push_component`; a validated component has a length of two bytes. -/
def pushComponent (target value : List UInt8) : List UInt8 × (ℕ × ℕ) :=
  let start := target.length + 2
  (target ++ frame16 value, (start, start + value.length))

def Context.forRow (namespaceLabel purpose : String) (owner resource : List UInt8)
    (payloadSchema : String) : Except Error Context := do
  validateLabel namespaceLabel
  validateLabel purpose
  validateBinding owner
  validateBinding resource
  validateLabel payloadSchema
  let encoded := [contextCodecVersion, rowBinding]
  let (encoded, namespaceRange) := pushComponent encoded (asBytes namespaceLabel)
  let (encoded, purposeRange) := pushComponent encoded (asBytes purpose)
  let (encoded, _) := pushComponent encoded owner
  let (encoded, _) := pushComponent encoded resource
  let (encoded, _) := pushComponent encoded (asBytes payloadSchema)
  validateTotal encoded
  return { encoded, namespaceRange, purposeRange }

def Context.forTenantToken (namespaceLabel purpose : String) (tenant : List UInt8)
    (payloadSchema : String) : Except Error Context := do
  validateLabel namespaceLabel
  validateLabel purpose
  validateBinding tenant
  validateLabel payloadSchema
  let encoded := [contextCodecVersion, tenantTokenBinding]
  let (encoded, namespaceRange) := pushComponent encoded (asBytes namespaceLabel)
  let (encoded, purposeRange) := pushComponent encoded (asBytes purpose)
  let (encoded, _) := pushComponent encoded tenant
  let (encoded, _) := pushComponent encoded (asBytes payloadSchema)
  validateTotal encoded
  return { encoded, namespaceRange, purposeRange }

/-- What a context is made from. -/
inductive Binding
  | row (namespaceLabel purpose : String) (owner resource : List UInt8) (payloadSchema : String)
  | tenantToken (namespaceLabel purpose : String) (tenant : List UInt8) (payloadSchema : String)
  deriving DecidableEq

/-- The context of a binding, by its factory. -/
def Binding.context : Binding → Except Error Context
  | .row namespaceLabel purpose owner resource payloadSchema =>
    Context.forRow namespaceLabel purpose owner resource payloadSchema
  | .tenantToken namespaceLabel purpose tenant payloadSchema =>
    Context.forTenantToken namespaceLabel purpose tenant payloadSchema

def Binding.components : Binding → List (List UInt8)
  | .row namespaceLabel purpose owner resource payloadSchema =>
    [asBytes namespaceLabel, asBytes purpose, owner, resource, asBytes payloadSchema]
  | .tenantToken namespaceLabel purpose tenant payloadSchema =>
    [asBytes namespaceLabel, asBytes purpose, tenant, asBytes payloadSchema]

/-- The byte that tells the kinds of bindings apart. -/
def Binding.kind : Binding → UInt8
  | .row .. => rowBinding
  | .tenantToken .. => tenantTokenBinding

variable {binding binding' : Binding} {context context' : Context}

/-- A context is encoded as its version, its kind and its components behind their lengths. -/
theorem Binding.context_eq_ok (h : binding.context = .ok context) :
    context.encoded = contextCodecVersion :: binding.kind :: binding.components.flatMap frame16 ∧
      context.encoded.length ≤ maxContextBytes ∧
      ∀ component ∈ binding.components, component.length < 256 ^ 2 := by
  have hlabel : ∀ {value : String}, validateLabel value = .ok () →
      (asBytes value).length < 256 ^ 2 :=
    fun hval => (validateLabel_eq_ok hval).trans_lt (by decide)
  have hcomponent : ∀ {value : List UInt8}, validateBinding value = .ok () →
      value.length < 256 ^ 2 :=
    fun hval => (validateBinding_eq_ok hval).trans_lt (by decide)
  cases binding with
  | row namespaceLabel purpose owner res payloadSchema =>
    simp only [Binding.context, Context.forRow, bind_eq_ok, exists_unit, pure_eq_ok] at h
    obtain ⟨hnamespace, hpurpose, howner, hres, hschema, htotal, rfl⟩ := h
    refine ⟨by simp [pushComponent, components, kind], ?_, ?_⟩
    · simpa [validateTotal] using htotal
    · simp only [components, forall_mem_cons]
      exact ⟨hlabel hnamespace, hlabel hpurpose, hcomponent howner, hcomponent hres,
        hlabel hschema, fun _ hmem => absurd hmem not_mem_nil⟩
  | tenantToken namespaceLabel purpose tenant payloadSchema =>
    simp only [Binding.context, Context.forTenantToken, bind_eq_ok, exists_unit, pure_eq_ok] at h
    obtain ⟨hnamespace, hpurpose, htenant, hschema, htotal, rfl⟩ := h
    refine ⟨by simp [pushComponent, components, kind], ?_, ?_⟩
    · simpa [validateTotal] using htotal
    · simp only [components, forall_mem_cons]
      exact ⟨hlabel hnamespace, hlabel hpurpose, hcomponent htenant, hlabel hschema,
        fun _ hmem => absurd hmem not_mem_nil⟩

/-- Components behind their lengths determine the list of components. -/
theorem flatMap_frame16_inj {components components' : List (List UInt8)}
    (h : ∀ component ∈ components, component.length < 256 ^ 2)
    (h' : ∀ component ∈ components', component.length < 256 ^ 2)
    (heq : components.flatMap frame16 = components'.flatMap frame16) :
    components = components' := by
  induction components generalizing components' with
  | nil =>
    cases components' with
    | nil => rfl
    | cons component components' => simp [frame16, toBeBytes] at heq
  | cons component components ih =>
    cases components' with
    | nil => simp [frame16, toBeBytes] at heq
    | cons component' components' =>
      rw [forall_mem_cons] at h h'
      rw [flatMap_cons, flatMap_cons] at heq
      obtain ⟨rfl, hrest⟩ := frame16_inj h.1 h'.1 heq
      rw [ih h.2 h'.2 hrest]

theorem Binding.eq_of_components (hkind : binding.kind = binding'.kind)
    (hcomponents : binding.components = binding'.components) : binding = binding' := by
  cases binding <;> cases binding' <;>
    simp_all [kind, components, rowBinding, tenantTokenBinding, asBytes_injective.eq_iff]

/-- The encoded context determines what it was made from. -/
theorem Binding.context_inj (h : binding.context = .ok context)
    (h' : binding'.context = .ok context') (heq : context.encoded = context'.encoded) :
    binding = binding' := by
  obtain ⟨hencoded, _, hbound⟩ := Binding.context_eq_ok h
  obtain ⟨hencoded', _, hbound'⟩ := Binding.context_eq_ok h'
  rw [hencoded, hencoded', List.cons.injEq, List.cons.injEq] at heq
  exact Binding.eq_of_components heq.2.1 (flatMap_frame16_inj hbound hbound' heq.2.2)

end Batter.AtRest
