import RoleLint.Config
import RoleLint.Proofs.RawText

/- Which dialect an extension stands for, when keys are spelled in different ways.

   1. `SameKey` - keys that differ by leading dots and case alone.
   2. `dot_not_mem_extension?`, `keyMatches_iff` - extensions have no dots, so a key stands for
      an extension exactly if the two are the same key.
   3. `LeastKey`, `exists_leastKey`, `find?_eq_none_iff` - the overrides go by the least key in
      the order of bytes.
   4. `Apart`, `respell`, `mem_respell_iff`, `find?_respell` - keys that stand for different
      extensions may be spelled anew: the same entries come in another order.
   5. `dialects_by_key` - what follows for the dialects of files. -/
namespace RoleLint

/-! ## Spellings -/

/-- A key without its leading dots, in lower case. -/
def keyForm (key : String) : List Char :=
  lowerText (dropDots key.toList)

/-- Two keys are the same but for leading dots and case. -/
def SameKey (a b : String) : Prop :=
  keyForm a = keyForm b

instance (a b : String) : Decidable (SameKey a b) :=
  inferInstanceAs (Decidable (keyForm a = keyForm b))

theorem SameKey.symm {a b : String} (h : SameKey a b) : SameKey b a :=
  Eq.symm h

theorem SameKey.trans {a b c : String} (h : SameKey a b) (h' : SameKey b c) : SameKey a c :=
  Eq.trans h h'

theorem dot_not_mem_nameExtension? {name : Path.Segment} {bytes : List UInt8}
    (h : Path.nameExtension? name = some bytes) : Path.dot ∉ bytes := by
  simp only [Path.nameExtension?] at h
  split at h
  · cases h
  · cases h
    intro hdot
    have hpasses := List.all_takeWhile (p := fun b => b != Path.dot) (l := name.reverse)
    have hne := List.all_eq_true.mp hpasses Path.dot (List.mem_reverse.mp hdot)
    cases hne

/-- An extension is what comes after the last dot. -/
theorem dot_not_mem_extension? {path : Path} {ext : String}
    (h : Path.extension? path = some ext) : '.' ∉ ext.toList := by
  unfold Path.extension? at h
  split at h
  · cases h
  · split at h
    · cases h
    · obtain ⟨bytes, hbytes, htext⟩ := Option.bind_eq_some_iff.mp h
      have hencoded : bytes = RawText.encode ext.toList :=
        congrArg RawText.bytes (RawText.text?_eq_some_iff.mp htext)
      intro hdot
      apply dot_not_mem_nameExtension? hbytes
      rw [hencoded, RawText.encode, List.mem_flatMap]
      exact ⟨'.', hdot, by decide⟩

theorem dropDots_eq_self {cs : List Char} (h : '.' ∉ cs) : dropDots cs = cs := by
  cases cs with
  | nil => rfl
  | cons c cs =>
    have hc : c ≠ '.' := by
      rintro rfl
      exact h List.mem_cons_self
    rw [dropDots, List.dropWhile_cons_of_neg (by simpa using hc)]

section
variable {path : Path} {ext : String} (hext : Path.extension? path = some ext)
include hext

theorem keyForm_extension? : keyForm ext = lowerText ext.toList := by
  rw [keyForm, dropDots_eq_self (dot_not_mem_extension? hext)]

theorem keyMatches_iff {key : String} :
    Overrides.keyMatches ext key = true ↔ SameKey key ext := by
  rw [Overrides.keyMatches, beq_iff_eq, SameKey, keyForm_extension? hext, keyForm]

end

/-! ## The least key -/

/-- The entry whose key is the least, in the order of bytes, of all keys that are the same as an
    extension. -/
structure LeastKey (o : Overrides) (ext key : String) (d : Dialect) : Prop where
  entry : (key, d) ∈ o.entries
  same : SameKey key ext
  least : ∀ e ∈ o.entries, SameKey e.1 ext → utf8Bytes key ≤ utf8Bytes e.1

section
variable {path : Path} {ext : String} (hext : Path.extension? path = some ext) {o : Overrides}
include hext

/-- The first key that stands for an extension is the least one. -/
theorem Overrides.exists_leastKey {d : Dialect} (h : o.find? ext = some d) :
    ∃ key, LeastKey o ext key d := by
  obtain ⟨⟨key, d'⟩, hfind, hd⟩ := Option.map_eq_some_iff.mp h
  obtain rfl : d' = d := hd
  obtain ⟨hmatch, before, after, hsplit, hbefore⟩ := List.find?_eq_some_iff_append.mp hfind
  have hsorted := o.sorted
  rw [hsplit] at hsorted
  refine ⟨key, ?_, (keyMatches_iff hext).mp hmatch, ?_⟩
  · rw [hsplit]
    exact List.mem_append_right before List.mem_cons_self
  · intro e he hsame
    rw [hsplit, List.mem_append, List.mem_cons] at he
    rcases he with he | rfl | he
    · have hno := hbefore e he
      rw [(keyMatches_iff hext).mpr hsame] at hno
      cases hno
    · exact le_refl _
    · have hlt := (List.pairwise_cons.mp (List.pairwise_append.mp hsorted).2.1).1 e he
      exact utf8Bytes_le_iff.mpr (String.not_lt.mp (String.lt_asymm hlt))

theorem Overrides.find?_eq_none_iff : o.find? ext = none ↔ ∀ e ∈ o.entries, ¬ SameKey e.1 ext := by
  simp only [Overrides.find?, Option.map_eq_none_iff, List.find?_eq_none, keyMatches_iff hext]

end

/-! ## Other spellings -/

namespace Overrides

/-- No two keys are the same but for their spelling. -/
def Apart (o : Overrides) : Prop :=
  ∀ a ∈ o.entries, ∀ b ∈ o.entries, SameKey a.1 b.1 → a = b

instance (o : Overrides) : Decidable o.Apart :=
  inferInstanceAs (Decidable (∀ a ∈ o.entries, ∀ b ∈ o.entries, _ → _))

/-- The overrides with all keys spelled anew. -/
def respell (o : Overrides) (spell : String → String) : Overrides :=
  ofList (o.entries.map fun e => (spell e.1, e.2))

theorem mem_insertEntry_iff {key : String} {d : Dialect} {e : String × Dialect}
    {es : List (String × Dialect)} (hs : es.Pairwise fun a b => a.1 < b.1) :
    e ∈ insertEntry key d es ↔ e = (key, d) ∨ e ∈ es ∧ e.1 ≠ key := by
  -- A key that all keys of a list come after is none of them.
  have hne : ∀ {es : List (String × Dialect)}, (∀ a ∈ es, key < a.1) → e ∈ es → e.1 ≠ key := by
    intro es hlt he heq
    have := hlt e he
    rw [heq] at this
    exact String.lt_irrefl key this
  induction es with
  | nil => simp [insertEntry]
  | cons a es ih =>
    obtain ⟨k, d'⟩ := a
    obtain ⟨hk, hes⟩ := List.pairwise_cons.mp hs
    by_cases hkey : key = k
    · subst hkey
      rw [insertEntry, if_pos rfl, List.mem_cons, List.mem_cons]
      have := hne hk
      grind
    · by_cases hlt : key < k
      · have hall : ∀ a ∈ (k, d') :: es, key < a.1 := by
          rw [List.forall_mem_cons]
          exact ⟨hlt, fun a ha => String.lt_trans hlt (hk a ha)⟩
        rw [insertEntry, if_neg hkey, if_pos hlt, List.mem_cons]
        have := hne hall
        tauto
      · rw [insertEntry, if_neg hkey, if_neg hlt]
        simp only [List.mem_cons, ih hes]
        grind

theorem mem_insert_iff {o : Overrides} {key : String} {d : Dialect} {e : String × Dialect} :
    e ∈ (o.insert key d).entries ↔ e = (key, d) ∨ e ∈ o.entries ∧ e.1 ≠ key :=
  mem_insertEntry_iff o.sorted

/-- Entries with different keys are all kept. -/
theorem mem_foldl_insert_iff {es : List (String × Dialect)} {o : Overrides}
    {e : String × Dialect} (hes : es.Pairwise fun a b => a.1 ≠ b.1)
    (ho : ∀ a ∈ o.entries, ∀ b ∈ es, a.1 ≠ b.1) :
    e ∈ (es.foldl (fun o e => o.insert e.1 e.2) o).entries ↔ e ∈ o.entries ∨ e ∈ es := by
  induction es generalizing o with
  | nil => simp
  | cons a es ih =>
    obtain ⟨ha, hes⟩ := List.pairwise_cons.mp hes
    have hstep : ∀ b ∈ (o.insert a.1 a.2).entries, ∀ c ∈ es, b.1 ≠ c.1 := by
      intro b hb c hc
      rcases mem_insert_iff.mp hb with rfl | ⟨hb, -⟩
      · exact ha c hc
      · exact ho b hb c (List.mem_cons_of_mem a hc)
    have hkept : e ∈ o.entries → e.1 ≠ a.1 := fun he => ho e he a List.mem_cons_self
    rw [List.foldl_cons, ih hes hstep, mem_insert_iff, List.mem_cons]
    tauto

theorem mem_ofList_iff {es : List (String × Dialect)} {e : String × Dialect}
    (hes : es.Pairwise fun a b => a.1 ≠ b.1) : e ∈ (ofList es).entries ↔ e ∈ es := by
  rw [ofList, mem_foldl_insert_iff hes (by simp [empty])]
  simp [empty]

section
variable {o : Overrides} (ha : o.Apart) {spell : String → String}
  (hspell : ∀ e ∈ o.entries, SameKey (spell e.1) e.1)
include ha hspell

theorem mem_respell_iff {e : String × Dialect} :
    e ∈ (o.respell spell).entries ↔ ∃ a ∈ o.entries, (spell a.1, a.2) = e := by
  have hdistinct : (o.entries.map fun e => (spell e.1, e.2)).Pairwise fun a b => a.1 ≠ b.1 := by
    rw [List.pairwise_map]
    refine o.sorted.imp_of_mem ?_
    intro a b hma hmb hlt heq
    have hspelled : SameKey (spell a.1) (spell b.1) := congrArg keyForm heq
    have hsame : SameKey a.1 b.1 := (hspell a hma).symm.trans (hspelled.trans (hspell b hmb))
    rw [ha a hma b hmb hsame] at hlt
    exact String.lt_irrefl _ hlt
  rw [respell, mem_ofList_iff hdistinct, List.mem_map]

theorem apart_respell : (o.respell spell).Apart := by
  intro e he e' he' hsame
  obtain ⟨a, hma, rfl⟩ := (mem_respell_iff ha hspell).mp he
  obtain ⟨b, hmb, rfl⟩ := (mem_respell_iff ha hspell).mp he'
  have hab : SameKey a.1 b.1 := (hspell a hma).symm.trans (hsame.trans (hspell b hmb))
  rw [ha a hma b hmb hab]

end

/-- Where keys are apart, the order of the entries makes no difference. -/
theorem find?_eq_some_iff {path : Path} {ext : String} (hext : Path.extension? path = some ext)
    {o : Overrides} (ha : o.Apart) {d : Dialect} :
    o.find? ext = some d ↔ ∃ key, (key, d) ∈ o.entries ∧ SameKey key ext := by
  constructor
  · intro h
    obtain ⟨key, hkey⟩ := exists_leastKey hext h
    exact ⟨key, hkey.entry, hkey.same⟩
  · intro ⟨key, hentry, hsame⟩
    cases hfind : o.find? ext with
    | none => exact absurd hsame ((find?_eq_none_iff hext).mp hfind _ hentry)
    | some d' =>
      obtain ⟨key', hkey'⟩ := exists_leastKey hext hfind
      have heq := ha _ hkey'.entry _ hentry (hkey'.same.trans hsame.symm)
      rw [(Prod.mk.inj heq).2]

/-- **Keys that are apart may be spelled anew.** -/
theorem find?_respell {path : Path} {ext : String} (hext : Path.extension? path = some ext)
    {o : Overrides} (ha : o.Apart) {spell : String → String}
    (hspell : ∀ e ∈ o.entries, SameKey (spell e.1) e.1) :
    (o.respell spell).find? ext = o.find? ext := by
  ext d
  rw [find?_eq_some_iff hext (apart_respell ha hspell), find?_eq_some_iff hext ha]
  constructor
  · intro ⟨key, hentry, hsame⟩
    obtain ⟨a, hma, heq⟩ := (mem_respell_iff ha hspell).mp hentry
    cases heq
    exact ⟨a.1, hma, (hspell a hma).symm.trans hsame⟩
  · intro ⟨key, hentry, hsame⟩
    exact ⟨spell key, (mem_respell_iff ha hspell).mpr ⟨_, hentry, rfl⟩,
      (hspell _ hentry).trans hsame⟩

end Overrides

/-! ## Dialects of files -/

theorem dialectFor_of_none (c : Config) {path : Path} (h : Path.extension? path = none) :
    c.dialectFor path = .typescript := by
  simp only [Config.dialectFor, Dialect.ofPath, h]

theorem dialectFor_of_some (c : Config) {path : Path} {ext : String}
    (h : Path.extension? path = some ext) :
    c.dialectFor path = (c.dialects.find? ext).getD (Dialect.ofExtension ext) := by
  simp only [Config.dialectFor, Dialect.ofPath, h]

/-- Extensions that differ by case alone stand for the same dialect. -/
theorem dialectFor_of_sameCase (c : Config) {path path' : Path} {ext ext' : String}
    (h : Path.extension? path = some ext) (h' : Path.extension? path' = some ext')
    (hcase : lowerText ext.toList = lowerText ext'.toList) :
    c.dialectFor path = c.dialectFor path' := by
  have hform : keyForm ext = keyForm ext' := by
    rw [keyForm_extension? h, keyForm_extension? h', hcase]
  have hfind : c.dialects.find? ext = c.dialects.find? ext' := by
    simp only [Overrides.find?, Overrides.keyMatches, hcase]
  have hdefault : Dialect.ofExtension ext = Dialect.ofExtension ext' := by
    unfold keyForm at hform
    simp only [Dialect.ofExtension, hform]
  rw [dialectFor_of_some c h, dialectFor_of_some c h', hfind, hdefault]

/-- **The dialect of a file depends neither on the spelling of keys nor on their order.** A path
    without an extension has the same dialect whatever is configured. Otherwise the dialect is
    that of the least key, in the order of bytes, that is the same as the extension, or the
    extension's own if there is no such key. So extensions that differ by case alone mean the
    same, and so do overrides with keys that are apart and are spelled anew. -/
theorem dialects_by_key (c : Config) :
    (∀ path, Path.extension? path = none → c.dialectFor path = .typescript) ∧
    (∀ path ext, Path.extension? path = some ext →
      (∃ key d, LeastKey c.dialects ext key d ∧ c.dialectFor path = d) ∨
        ((∀ e ∈ c.dialects.entries, ¬ SameKey e.1 ext) ∧
          c.dialectFor path = Dialect.ofExtension ext)) ∧
    (∀ path path' ext ext', Path.extension? path = some ext → Path.extension? path' = some ext' →
      lowerText ext.toList = lowerText ext'.toList → c.dialectFor path = c.dialectFor path') ∧
    (c.dialects.Apart → ∀ spell : String → String,
      (∀ e ∈ c.dialects.entries, SameKey (spell e.1) e.1) →
      ∀ path, ({ c with dialects := c.dialects.respell spell } : Config).dialectFor path =
        c.dialectFor path) := by
  refine ⟨?_, ?_, ?_, ?_⟩
  · intro path h
    exact dialectFor_of_none c h
  · intro path ext h
    cases hfind : c.dialects.find? ext with
    | none =>
      refine .inr ⟨(Overrides.find?_eq_none_iff h).mp hfind, ?_⟩
      rw [dialectFor_of_some c h, hfind, Option.getD_none]
    | some d =>
      obtain ⟨key, hkey⟩ := Overrides.exists_leastKey h hfind
      refine .inl ⟨key, d, hkey, ?_⟩
      rw [dialectFor_of_some c h, hfind, Option.getD_some]
  · intro path path' ext ext' h h' hcase
    exact dialectFor_of_sameCase c h h' hcase
  · intro ha spell hspell path
    cases hext : Path.extension? path with
    | none => rw [dialectFor_of_none _ hext, dialectFor_of_none c hext]
    | some ext =>
      rw [dialectFor_of_some _ hext, dialectFor_of_some c hext,
        Overrides.find?_respell hext ha hspell]

/-- Three keys that are the same but for their spelling. -/
def collidingConfig : Config where
  dialects := .ofList [("JS", .tsx), (".js", .jsx), ("..js", .javascript)]

/-- Two keys that are apart. -/
def apartConfig : Config where
  dialects := .ofList [(".es6", .javascript), ("JS", .tsx)]

/-- Other spellings of these two keys, which come in the other order. -/
def otherSpelling (key : String) : String :=
  if key = "JS" then "..js" else "ES6"

theorem dialects_by_key_colliding :
    (Path.extension? ".js" = none ∧ collidingConfig.dialectFor ".js" = .typescript) ∧
    (Path.extension? "src/a.b.jS" = some "jS" ∧ ∃ key d,
      LeastKey collidingConfig.dialects "jS" key d ∧
        collidingConfig.dialectFor "src/a.b.jS" = d) ∧
    (Path.extension? "Js.Js" = some "Js" ∧
      collidingConfig.dialectFor "src/a.b.jS" = collidingConfig.dialectFor "Js.Js") ∧
    (apartConfig.dialects.Apart ∧
      (∀ e ∈ apartConfig.dialects.entries, SameKey (otherSpelling e.1) e.1) ∧
      (apartConfig.dialects.entries = [(".es6", .javascript), ("JS", .tsx)] ∧
        (apartConfig.dialects.respell otherSpelling).entries =
          [("..js", .tsx), ("ES6", .javascript)]) ∧
      ∀ path, ({ apartConfig with dialects := apartConfig.dialects.respell otherSpelling } :
        Config).dialectFor path = apartConfig.dialectFor path) := by
  obtain ⟨hignored, hleast, hcase, -⟩ := dialects_by_key collidingConfig
  obtain ⟨-, -, -, hrespelled⟩ := dialects_by_key apartConfig
  have hnone : Path.extension? ".js" = none := by decide +kernel
  have hext : Path.extension? "src/a.b.jS" = some "jS" := by decide +kernel
  have hext' : Path.extension? "Js.Js" = some "Js" := by decide +kernel
  have hlower : lowerText "jS".toList = lowerText "Js".toList := by decide
  have hapart : apartConfig.dialects.Apart := by decide +kernel
  have hspell : ∀ e ∈ apartConfig.dialects.entries, SameKey (otherSpelling e.1) e.1 := by
    decide +kernel
  have horder : apartConfig.dialects.entries = [(".es6", .javascript), ("JS", .tsx)] ∧
      (apartConfig.dialects.respell otherSpelling).entries =
        [("..js", .tsx), ("ES6", .javascript)] := by
    decide +kernel
  refine ⟨⟨hnone, hignored _ hnone⟩, ⟨hext, ?_⟩, ⟨hext', hcase _ _ _ _ hext hext' hlower⟩,
    hapart, hspell, horder, hrespelled hapart otherSpelling hspell⟩
  rcases hleast _ _ hext with hfound | ⟨hno, -⟩
  · exact hfound
  · have hsome : ∃ e ∈ collidingConfig.dialects.entries, SameKey e.1 "jS" := by decide +kernel
    obtain ⟨e, he, hsame⟩ := hsome
    exact absurd hsame (hno e he)

end RoleLint
