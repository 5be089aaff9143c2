import RoleLint.Proofs.WireForms

/- Values of every wire type go through their text and come back.

   1. `Overrides.ofList_entries` - overrides are made again from their own entries.
   2. `carries_config` - the wire form of configurations.
   3. `Yields` - what every value has that a form reads.
   4. `Lossless` - a form that reads back all values that fit, and reads no others.
   5. `WireType` - the types that are exchanged; all have lossless forms.
   6. `wire_round_trip` - what follows for their texts. -/
namespace RoleLint

/-! ## Overrides -/

/-- A key behind all others is added at the end. -/
theorem insertEntry_eq_append {key : String} {d : Dialect} {es : List (String × Dialect)}
    (h : ∀ e ∈ es, e.1 < key) : insertEntry key d es = es ++ [(key, d)] := by
  induction es with
  | nil => rfl
  | cons e es ih =>
    obtain ⟨k, d'⟩ := e
    have hk : k < key := h (k, d') List.mem_cons_self
    have hne : key ≠ k := fun heq => String.lt_irrefl k (heq ▸ hk)
    have hlt : ¬ key < k := fun hlt => String.lt_irrefl k (String.lt_trans hk hlt)
    rw [insertEntry, if_neg hne, if_neg hlt, ih fun e he => h e (List.mem_cons_of_mem _ he),
      List.cons_append]

namespace Overrides

/-- Entries that come in the order of their keys are added one behind the other. -/
theorem foldl_insert_entries (es : List (String × Dialect)) (o : Overrides)
    (h : (o.entries ++ es).Pairwise fun a b => a.1 < b.1) :
    (es.foldl (fun o e => o.insert e.1 e.2) o).entries = o.entries ++ es := by
  induction es generalizing o with
  | nil => simp
  | cons e es ih =>
    have hlast : ∀ a ∈ o.entries, a.1 < e.1 := fun a ha =>
      (List.pairwise_append.mp h).2.2 a ha e List.mem_cons_self
    have hentries : (o.insert e.1 e.2).entries = o.entries ++ [e] := insertEntry_eq_append hlast
    have hstep : o.entries ++ e :: es = (o.insert e.1 e.2).entries ++ es := by
      rw [hentries, List.append_assoc, List.singleton_append]
    rw [List.foldl_cons, ih _ (hstep ▸ h), ← hstep]

theorem ofList_entries (o : Overrides) : ofList o.entries = o := by
  -- The order of the entries is part of the structure, and what the fold needs.
  have h := foldl_insert_entries o.entries empty o.sorted
  cases o
  rw [ofList, mk.injEq]
  exact h

end Overrides

namespace Wire
open Json (Plain)

/-! ## Configurations -/

theorem carries_dialect (d : Dialect) : Carries dialect? (ofDialect d) d :=
  ⟨.text _, by cases d <;> rfl⟩

theorem carries_outputSettings (o : OutputSettings) :
    Carries outputSettings? (ofOutputSettings o) o := by
  have hformat : Plain (ofFormat o.format) ∧ format? (ofFormat o.format) = some o.format := by
    cases o.format with
    | none => exact ⟨.null, rfl⟩
    | some s => exact ⟨.text s, rfl⟩
  refine ⟨plain_object ?_, ?_⟩
  · simp only [List.map_cons, List.map_nil, List.forall_mem_cons]
    exact ⟨hformat.1, .bool _, .bool _, by simp⟩
  · simp [outputSettings?, ofOutputSettings, optional, member, hformat.2, readBool]

theorem carries_overrides (o : Overrides) : Carries overrides? (ofOverrides o) o := by
  refine ⟨plain_object ?_, ?_⟩
  · intro j hj
    obtain ⟨m, hm, rfl⟩ := List.mem_map.mp hj
    obtain ⟨e, -, rfl⟩ := List.mem_map.mp hm
    exact (carries_dialect e.2).plain
  · have hread : (fun m : String × Json => (dialect? m.2).map fun d => (m.1, d)) ∘
        (fun e : String × Dialect => (e.1, ofDialect e.2)) = (pure : _ → Option _) := by
      funext e
      show (dialect? (ofDialect e.2)).map _ = _
      rw [(carries_dialect e.2).read]
      rfl
    rw [ofOverrides, overrides?, List.mapM_map, hread, List.mapM_pure]
    simp [Overrides.ofList_entries]

theorem carries_config (c : Config) : Carries config? (ofConfig c) c := by
  have houtput := carries_outputSettings c.output
  have hdialects := carries_overrides c.dialects
  refine ⟨plain_object ?_, ?_⟩
  · simp only [List.map_cons, List.map_nil, List.forall_mem_cons]
    exact ⟨houtput.plain, hdialects.plain, by simp⟩
  · simp [config?, ofConfig, optional, member, houtput.read, hdialects.read]

/-! ## What is read -/

/-- Every value that a form reads has a property. -/
def Yields {α : Type} (form : Json → Option α) (P : α → Prop) : Prop :=
  ∀ j a, form j = some a → P a

theorem yields_true {α : Type} (form : Json → Option α) : Yields form fun _ => True :=
  fun _ _ _ => trivial

theorem yields_number : Yields readNumber (· < numberLimit) := by
  intro j n h
  unfold readNumber at h
  split at h
  · split at h
    · next hlt =>
      cases h
      exact hlt
    · cases h
  · cases h

theorem Yields.required {α : Type} {form : Json → Option α} {P : α → Prop} (h : Yields form P)
    {k : String} {ms : List (String × Json)} {a : α} (ha : required form k ms = some a) : P a := by
  unfold Wire.required at ha
  split at ha
  · exact h _ a ha
  · cases ha

theorem Yields.list {α : Type} {form : Json → Option α} {P : α → Prop} (h : Yields form P) :
    Yields (readList form) fun as => ∀ a ∈ as, P a := by
  intro j as hj
  unfold readList at hj
  split at hj
  · next xs =>
    induction xs generalizing as with
    | nil =>
      cases hj
      simp
    | cons x xs ih =>
      rw [List.mapM_cons] at hj
      obtain ⟨a, ha, hj⟩ := Option.bind_eq_some_iff.mp hj
      obtain ⟨rest, hrest, hj⟩ := Option.bind_eq_some_iff.mp hj
      cases hj
      exact List.forall_mem_cons.mpr ⟨h x a ha, ih rest hrest⟩
  · cases hj

/-- A structure is read from an object or from a list of its fields, part by part; in both
    cases its numbers come from the same forms. -/
theorem yields_location : Yields location? Location.Fits := by
  intro j l h
  unfold location? at h
  split at h <;>
    simp only [Option.bind_eq_bind, Option.bind_eq_some_iff, Option.pure_def,
      Option.some.injEq, reduceCtorEq] at h
  · obtain ⟨line, hline, column, hcolumn, rfl⟩ := h
    exact ⟨yields_number.required hline, yields_number.required hcolumn⟩
  · obtain ⟨line, hline, column, hcolumn, rfl⟩ := h
    exact ⟨yields_number _ _ hline, yields_number _ _ hcolumn⟩

theorem yields_descriptor : Yields descriptor? Descriptor.Fits := by
  intro j d h
  unfold descriptor? at h
  split at h <;>
    simp only [Option.bind_eq_bind, Option.bind_eq_some_iff, Option.pure_def,
      Option.some.injEq, reduceCtorEq] at h
  · obtain ⟨name, -, role, -, location, hlocation, calls, hcalls, returns, hreturns, rfl⟩ := h
    exact ⟨yields_location.required hlocation, yields_location.list.required hcalls,
      yields_location.list.required hreturns⟩
  · obtain ⟨name, -, role, -, location, hlocation, calls, hcalls, returns, hreturns, rfl⟩ := h
    exact ⟨yields_location _ _ hlocation, yields_location.list _ _ hcalls,
      yields_location.list _ _ hreturns⟩

theorem yields_violation : Yields violation? fun v => v.location.Fits := by
  intro j v h
  unfold violation? at h
  split at h <;>
    simp only [Option.bind_eq_bind, Option.bind_eq_some_iff, Option.pure_def,
      Option.some.injEq, reduceCtorEq] at h
  · obtain ⟨rule, -, message, -, severity, -, function, -, location, hlocation, rfl⟩ := h
    exact yields_location.required hlocation
  · obtain ⟨rule, -, message, -, severity, -, function, -, location, hlocation, rfl⟩ := h
    exact yields_location _ _ hlocation

theorem yields_path : Yields path? RawText.IsText := by
  intro j p h
  obtain ⟨s, -, rfl⟩ := Option.map_eq_some_iff.mp h
  exact RawText.isText_ofString s

theorem yields_result : Yields result? Result.Fits := by
  intro j r h
  unfold result? at h
  split at h <;>
    simp only [Option.bind_eq_bind, Option.bind_eq_some_iff, Option.pure_def,
      Option.some.injEq, reduceCtorEq] at h
  · obtain ⟨version, -, path, hpath, violations, hviolations, rfl⟩ := h
    exact ⟨yields_path.required hpath, yields_violation.list.required hviolations⟩
  · obtain ⟨version, -, path, hpath, violations, hviolations, rfl⟩ := h
    exact ⟨yields_path _ _ hpath, yields_violation.list _ _ hviolations⟩

/-! ## Lossless forms -/

/-- Every value that fits has a form and is read back from it, and no others are read. -/
structure Lossless {α : Type} (form : Json → Option α) (encode : α → Option Json)
    (fits : α → Prop) : Prop where
  carries : ∀ a, fits a → ∃ j, encode a = some j ∧ Carries form j a
  yields : Yields form fits

/-- A form that every value has. -/
theorem Lossless.ofTotal {α : Type} {form : Json → Option α} {encode : α → Json}
    {fits : α → Prop} (carries : ∀ a, fits a → Carries form (encode a) a)
    (yields : Yields form fits) : Lossless form (fun a => some (encode a)) fits :=
  ⟨fun a ha => ⟨encode a, rfl, carries a ha⟩, yields⟩

end Wire

/-! ## The types that are exchanged -/

/-- The types that are exchanged as JSON. -/
inductive WireType where
  | location
  | severity
  | role
  | dialect
  | descriptor
  | violation
  | result
  | config
  deriving DecidableEq, Repr

namespace WireType

/-- The values of a type. -/
def Value : WireType → Type
  | location => Location
  | severity => Severity
  | role => Role
  | dialect => Dialect
  | descriptor => Descriptor
  | violation => Violation
  | result => Result
  | config => Config

/-- All numbers in a value fit 64 bits, and the path of a result is a text. -/
def Fits : (w : WireType) → w.Value → Prop
  | location => Location.Fits
  | severity | role | dialect | config => fun _ => True
  | descriptor => Descriptor.Fits
  | violation => fun v => Location.Fits (Violation.location v)
  | result => Result.Fits

/-- A value as JSON, if it has a form. -/
def encode : (w : WireType) → w.Value → Option Json
  | location => fun l => some (Wire.ofLocation l)
  | severity => fun s => some (Wire.ofSeverity s)
  | role => fun r => some (Wire.ofRole r)
  | dialect => fun d => some (Wire.ofDialect d)
  | descriptor => fun d => some (Wire.ofDescriptor d)
  | violation => fun v => some (Wire.ofViolation v)
  | result => Wire.ofResult?
  | config => fun c => some (Wire.ofConfig c)

/-- A value from JSON. -/
def form : (w : WireType) → Json → Option w.Value
  | location => Wire.location?
  | severity => Wire.severity?
  | role => Wire.role?
  | dialect => Wire.dialect?
  | descriptor => Wire.descriptor?
  | violation => Wire.violation?
  | result => Wire.result?
  | config => Wire.config?

/-- A value as text, if it has a form. -/
def text? (w : WireType) (pretty : Bool) (a : w.Value) : Option String :=
  (w.encode a).map fun j => j.render pretty

/-- The value that a text holds. -/
def decode (w : WireType) (s : String) : Option w.Value :=
  Wire.decode w.form s

/-- A text, read and written again. -/
def recode (w : WireType) (pretty : Bool) (s : String) : Option String :=
  (w.decode s).bind (w.text? pretty)

theorem lossless : ∀ w : WireType, Wire.Lossless w.form w.encode w.Fits
  | location => .ofTotal (fun _ => Wire.carries_location) Wire.yields_location
  | severity => .ofTotal (fun s _ => Wire.carries_severity s) (Wire.yields_true _)
  | role => .ofTotal (fun r _ => Wire.carries_role r) (Wire.yields_true _)
  | dialect => .ofTotal (fun d _ => Wire.carries_dialect d) (Wire.yields_true _)
  | descriptor => .ofTotal (fun _ => Wire.carries_descriptor) Wire.yields_descriptor
  | violation => .ofTotal (fun _ => Wire.carries_violation) Wire.yields_violation
  | result => ⟨fun _ => Wire.carries_result, Wire.yields_result⟩
  | config => .ofTotal (fun c _ => Wire.carries_config c) (Wire.yields_true _)

theorem decode_text? (w : WireType) {a : w.Value} (ha : w.Fits a) (pretty : Bool) :
    ∃ s, w.text? pretty a = some s ∧ w.decode s = some a := by
  obtain ⟨j, hj, hcarries⟩ := w.lossless.carries a ha
  exact ⟨j.render pretty, by rw [text?, hj, Option.map_some], (hcarries.decode pretty).2⟩

theorem fits_of_decode {w : WireType} {s : String} {a : w.Value} (h : w.decode s = some a) :
    w.Fits a := by
  obtain ⟨j, -, hj⟩ := Option.bind_eq_some_iff.mp h
  exact w.lossless.yields j a hj

/-- What has been read and written once stays as it is. -/
theorem recode_idempotent {w : WireType} {pretty : Bool} {s t : String}
    (h : w.recode pretty s = some t) : w.recode pretty t = some t := by
  obtain ⟨a, ha, ht⟩ := Option.bind_eq_some_iff.mp h
  obtain ⟨t', ht', hread⟩ := w.decode_text? (fits_of_decode ha) pretty
  cases ht.symm.trans ht'
  rw [recode, hread, Option.bind_some, ht]

theorem text?_injective {w : WireType} {pretty : Bool} {a b : w.Value} (ha : w.Fits a)
    (hb : w.Fits b) (h : w.text? pretty a = w.text? pretty b) : a = b := by
  obtain ⟨s, hs, hreada⟩ := w.decode_text? ha pretty
  obtain ⟨t, ht, hreadb⟩ := w.decode_text? hb pretty
  cases hs.symm.trans (h.trans ht)
  exact Option.some.inj (hreada.symm.trans hreadb)

end WireType

/-- **Every value comes back from its text.** For each type that is exchanged and both
    layouts: a value whose numbers fit 64 bits, with a path that is a text if it has one, has a
    text and is read back from it, and only such values are read from any text; every text
    that can be read can be written again, and stays as it is from then on; and no two values
    have the same text. -/
theorem wire_round_trip (w : WireType) (pretty : Bool) :
    (∀ a, w.Fits a → ∃ s, w.text? pretty a = some s ∧ w.decode s = some a) ∧
    (∀ s a, w.decode s = some a → w.Fits a) ∧
    (∀ s a, w.decode s = some a →
      ∃ t, w.recode pretty s = some t ∧ w.recode pretty t = some t) ∧
    (∀ a b, w.Fits a → w.Fits b → w.text? pretty a = w.text? pretty b → a = b) := by
  refine ⟨?_, ?_, ?_, ?_⟩
  · intro a ha
    exact w.decode_text? ha pretty
  · intro s a hs
    exact WireType.fits_of_decode hs
  · intro s a hs
    obtain ⟨t, ht, -⟩ := w.decode_text? (WireType.fits_of_decode hs) pretty
    have hrecode : w.recode pretty s = some t := by
      rw [WireType.recode, hs, Option.bind_some, ht]
    exact ⟨t, hrecode, WireType.recode_idempotent hrecode⟩
  · intro a b ha hb heq
    exact WireType.text?_injective ha hb heq

instance (l : Location) : Decidable l.Fits :=
  inferInstanceAs (Decidable (_ ∧ _))

instance (d : Descriptor) : Decidable d.Fits :=
  decidable_of_iff (_ ∧ _ ∧ _) ⟨fun ⟨a, b, c⟩ => ⟨a, b, c⟩, fun ⟨a, b, c⟩ => ⟨a, b, c⟩⟩

/-- A descriptor with a name that has to be escaped, a role that does not go with it and the
    greatest line. -/
def sampleDescriptor : Descriptor :=
  ⟨"\"\\\x01\u2028😀", .hook, ⟨Wire.numberLimit - 1, 0⟩, [⟨1, 2⟩], []⟩

theorem wire_round_trip_sample :
    WireType.Fits .descriptor sampleDescriptor ∧
    ∃ s, WireType.text? .descriptor true sampleDescriptor = some s ∧
      WireType.decode .descriptor s = some sampleDescriptor := by
  have hfits : Descriptor.Fits sampleDescriptor := by decide
  exact ⟨hfits, (wire_round_trip .descriptor true).1 sampleDescriptor hfits⟩

end RoleLint
