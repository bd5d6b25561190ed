import Mathlib.Data.List.TakeWhile
import TorrentPrune.Catalog.Basic
import TorrentPrune.Proofs.Bencode.Numerals
import TorrentPrune.Proofs.Config.Layering

/-!
# What translating a key gives

Translating a key finds its template (following the key's dotted parts through the catalog), else
the default, else the key itself; with values given, the template is filled from them, and when
filling fails because of the template (a malformed field, a name or position with no value, a
subscript out of range, too many digits) the template is given back unformatted. Those are the
faults whose kinds are `KeyError`, `IndexError` and `ValueError`.

The other faults come from a value that cannot take what a field asks of it: an attribute it does
not have, a subscript, or a format specification. So they need a field that asks for one of
these. A template whose fields are all bare names (`{path}`) is never refused (`fill_plain`), and
translating a key of the English catalog, whose templates are all of this kind, always gives a
text (`english_render_eq_ok`). A default such as `{x.foo}` with `x = 1` is refused instead, with
an `AttributeError`.
-/

namespace TorrentPrune.Template

open TorrentPrune.Json

/-! ### Faults of the template -/

/-- Every fault of a result lies in the template. -/
def FaultsInTemplate {α : Type} (r : Except FormatError α) : Prop :=
  ∀ e, r = .error e → e.inTemplate = true

/-- The faults that lie in the template are exactly those of kind `KeyError`, `IndexError` and
`ValueError`. -/
theorem FormatError.inTemplate_iff (e : FormatError) :
    e.inTemplate = true ↔ e.kind ∈ ["KeyError", "IndexError", "ValueError"] := by
  cases e <;> simp [FormatError.inTemplate, FormatError.kind]

/-- The other faults are of kind `TypeError`, `AttributeError` or `OverflowError`. -/
theorem FormatError.kind_of_inTemplate_eq_false {e : FormatError} (h : e.inTemplate = false) :
    e.kind ∈ ["TypeError", "AttributeError", "OverflowError"] := by
  cases e <;> simp_all [FormatError.inTemplate, FormatError.kind]

theorem faultsInTemplate_ok {α : Type} (a : α) :
    FaultsInTemplate (.ok a : Except FormatError α) :=
  fun _ h ↦ by cases h

theorem faultsInTemplate_error {α : Type} {e : FormatError} (h : e.inTemplate = true) :
    FaultsInTemplate (.error e : Except FormatError α) :=
  fun _ he ↦ by cases he; exact h

/-- A computation whose first step and every continuation fault only in the template does so as a
whole. -/
theorem FaultsInTemplate.bind {α β : Type} {x : Except FormatError α}
    {f : α → Except FormatError β} (hx : FaultsInTemplate x)
    (hf : ∀ a, x = .ok a → FaultsInTemplate (f a)) : FaultsInTemplate (x >>= f) := by
  cases hxa : x with
  | error e => exact faultsInTemplate_error (hx e hxa)
  | ok a => exact hf a hxa

/-! ### Templates whose fields are bare names -/

/-- Whether every replacement field met from here on is a bare name (no attribute, subscript,
conversion or specification), reading text (`inField = false`) or a field's name
(`inField = true`). -/
def plainFieldsFrom : Bool → List Char → Bool
  | _, [] => true
  | false, '\x7b' :: '\x7b' :: rest => plainFieldsFrom false rest
  | false, '\x7b' :: rest => plainFieldsFrom true rest
  | false, _ :: rest => plainFieldsFrom false rest
  | true, '\x7d' :: rest => plainFieldsFrom false rest
  | true, c :: rest =>
    c != '\x7b' && c != '[' && c != '.' && c != '!' && c != ':' && plainFieldsFrom true rest

/-- Whether every replacement field of a template is a bare name. -/
def plainFields (t : String) : Bool := plainFieldsFrom false t.toList

/-- A name without a point or a bracket: no attribute and no subscript. -/
def BareName (name : List Char) : Prop := ∀ c ∈ name, c ≠ '.' ∧ c ≠ '['

/-- Text up to the next brace leaves the fields after it as they were. -/
theorem plainFieldsFrom_drop_literal : ∀ cs : List Char, plainFieldsFrom false cs = true →
    plainFieldsFrom false
      (cs.drop (cs.takeWhile fun c ↦ c != '\x7b' && c != '\x7d').length) = true
  | [], h => h
  | c :: rest, h => by
    by_cases hc : (c != '\x7b' && c != '\x7d') = true
    · have hopen : c ≠ '\x7b' := by simp_all
      have hrest : plainFieldsFrom false rest = true := by
        rw [plainFieldsFrom.eq_def] at h
        simpa [hopen] using h
      simpa [List.takeWhile_cons, hc] using plainFieldsFrom_drop_literal rest hrest
    · simpa [List.takeWhile_cons, hc] using h

/-- A brace that is not doubled opens a field. -/
theorem plainFieldsFrom_open {rest : List Char} (h : plainFieldsFrom false ('\x7b' :: rest) = true)
    (hrest : ∀ r, rest ≠ '\x7b' :: r) : plainFieldsFrom true rest = true := by
  cases rest with
  | nil => rfl
  | cons c r =>
    have hc : c ≠ '\x7b' := fun hc ↦ hrest r (by rw [hc])
    rw [plainFieldsFrom.eq_def] at h
    simpa [hc] using h

/-- Reading a bare name ends at its closing brace, with the text after it plain again, or at the
end of the text. -/
theorem readName_go_plain : ∀ (cs acc : List Char) (fuel : Nat),
    plainFieldsFrom true cs = true → BareName acc →
    (∃ name after, readName.go cs acc fuel = .ok (name, .close, after) ∧ BareName name ∧
        plainFieldsFrom false after = true) ∨
      ∃ name after, readName.go cs acc fuel = .ok (name, .endOfText, after)
  | [], acc, _, _, _ => .inr ⟨acc.reverse, [], by simp [readName.go]⟩
  | _ :: _, acc, 0, _, _ => .inr ⟨acc.reverse, [], by simp [readName.go]⟩
  | c :: rest, acc, fuel + 1, h, hacc => by
    by_cases hclose : c = '\x7d'
    · subst hclose
      refine .inl ⟨acc.reverse, rest, by simp [readName.go], ?_,
        by simpa [plainFieldsFrom] using h⟩
      exact fun d hd ↦ hacc d (List.mem_reverse.mp hd)
    · have hc : c ≠ '\x7b' ∧ c ≠ '[' ∧ c ≠ '.' ∧ c ≠ '!' ∧ c ≠ ':' ∧
          plainFieldsFrom true rest = true := by
        rw [plainFieldsFrom.eq_def] at h
        simp_all
      obtain ⟨hopen, hbracket, hpoint, hbang, hcolon, hrest⟩ := hc
      have hstep : readName.go (c :: rest) acc (fuel + 1) = readName.go rest (c :: acc) fuel := by
        simp [readName.go, hopen, hbracket, hclose, hbang, hcolon]
      rw [hstep]
      refine readName_go_plain rest (c :: acc) fuel hrest ?_
      intro d hd
      rcases List.mem_cons.mp hd with rfl | hd
      · exact ⟨hpoint, hbracket⟩
      · exact hacc d hd

/-- A field read where the fields are plain is a bare name with nothing after it, and the text
after it is plain again; reading it fails only for a fault of the template. -/
theorem readField_plain {cs : List Char} (h : plainFieldsFrom true cs = true) :
    FaultsInTemplate (readField cs) ∧
      ∀ field after, readField cs = .ok (field, after) →
        field = ⟨field.name, none, [], false⟩ ∧ BareName field.name ∧
          plainFieldsFrom false after = true := by
  unfold readField readName
  rcases readName_go_plain cs [] (cs.length + 1) h (by simp [BareName]) with
    ⟨name, after, hread, hname, hafter⟩ | ⟨name, after, hread⟩
  · rw [hread]
    refine ⟨faultsInTemplate_ok _, ?_⟩
    intro field after' hfield
    cases hfield
    exact ⟨rfl, hname, hafter⟩
  · rw [hread]
    refine ⟨faultsInTemplate_error rfl, ?_⟩
    intro field after' hfield
    cases hfield

/-- Selecting a value by a bare name fails only for a fault of the template: a positional field or
a name with no value. -/
theorem selectValue_bare (args : List (String × Value)) {name : List Char} (h : BareName name) :
    FaultsInTemplate (selectValue args name) := by
  have hfirst : name.takeWhile (fun c ↦ c != '.' && c != '[') = name :=
    List.takeWhile_eq_self_iff.mpr fun c hc ↦ by simp [(h c hc).1, (h c hc).2]
  unfold selectValue
  simp only [hfirst, List.drop_length]
  split
  · exact faultsInTemplate_error rfl
  · split
    · exact faultsInTemplate_error rfl
    · split
      · exact faultsInTemplate_error rfl
      · simp only [followPath, followPath.go]
        exact faultsInTemplate_ok _

/-- The plain text of a value fails only beyond the digit limit, a fault of the template. -/
theorem plainTextOf_faults (v : Value) : FaultsInTemplate (plainTextOf v) := by
  unfold plainTextOf
  split
  · dsimp only [decimalText]
    split
    · exact faultsInTemplate_error rfl
    · exact faultsInTemplate_ok _
  · exact faultsInTemplate_ok _

/-- A bare-name field fails only for a fault of the template. -/
theorem fillField_bare (args : List (String × Value))
    (nested : List Char → Except FormatError String) {name : List Char} (h : BareName name) :
    FaultsInTemplate (fillField args nested ⟨name, none, [], false⟩) := by
  unfold fillField
  refine (selectValue_bare args h).bind fun v _ ↦ ?_
  simpa [formatValue] using plainTextOf_faults v

/-- Filling text whose fields are all bare names fails only for a fault of the template. The
induction follows the filling's pieces: a literal run, a doubled brace, or a field. -/
theorem fillLevel_go_plain (args : List (String × Value))
    (nested : List Char → Except FormatError String) :
    ∀ (fuel : Nat) (cs : List Char) (acc : String), plainFieldsFrom false cs = true →
      FaultsInTemplate (fillLevel.go args nested cs acc fuel)
  | 0, _, _, _ => by simpa [fillLevel.go] using faultsInTemplate_ok _
  | fuel + 1, cs, acc, h => by
    have hrest := plainFieldsFrom_drop_literal cs h
    rw [fillLevel.go]
    split
    next => exact faultsInTemplate_ok _
    next _ rest hd =>
      rw [hd] at hrest
      exact fillLevel_go_plain args nested fuel rest _ (by simpa [plainFieldsFrom] using hrest)
    next => exact faultsInTemplate_error rfl
    next _ rest hd =>
      rw [hd] at hrest
      exact fillLevel_go_plain args nested fuel rest _ (by simpa [plainFieldsFrom] using hrest)
    next => exact faultsInTemplate_error rfl
    next _ head rest _ hnotClose hnotEscape _ hd =>
      -- the literal run stops at a brace; a closing one was handled above, so a field opens here
      have hbrace :=
        (Bencode.takeWhile_split (fun c ↦ c != '\x7b' && c != '\x7d') cs).2 head rest hd
      have hopen : head = '\x7b' := by
        simp only [Bool.and_eq_false_iff, bne_eq_false_iff_eq] at hbrace
        exact hbrace.resolve_right hnotClose
      subst hopen
      rw [hd] at hrest
      have hfield := plainFieldsFrom_open hrest fun r ↦ hnotEscape r rfl
      obtain ⟨hread, hshape⟩ := readField_plain hfield
      cases hr : readField rest with
      | error e => exact faultsInTemplate_error (hread e hr)
      | ok fieldAfter =>
        obtain ⟨field, after⟩ := fieldAfter
        obtain ⟨hfield, hname, hafter⟩ := hshape field after hr
        dsimp only
        cases hf : fillField args nested field with
        | error e =>
          rw [hfield] at hf
          exact faultsInTemplate_error (fillField_bare args nested hname e hf)
        | ok text => exact fillLevel_go_plain args nested fuel after _ hafter

/-- Filling a template whose fields are all bare names fails only for a fault of the template. -/
theorem fill_plain (args : List (String × Value)) {t : String} (h : plainFields t = true) :
    FaultsInTemplate (fill args t) :=
  fillLevel_go_plain args (fillFrom args 1) (t.toList.length + 1) t.toList "" h

end TorrentPrune.Template

namespace TorrentPrune.Catalog

open TorrentPrune.Json TorrentPrune.Template

/-- The text a key stands for: its template, else the default, else the key itself; filled from
the values when any are given, and unformatted when filling fails. -/
def Translations.translated (c : Translations) (key : String) (default : Option String)
    (args : List (String × Value)) : String :=
  match (c.lookup key).orElse fun _ ↦ default with
  | none => key
  | some t =>
    if args.isEmpty then t
    else
      match fill args t with
      | .ok text => text
      | .error _ => t

/-- Translating a key gives the text it stands for, unless filling the template with values given
meets a fault of a value, which then refuses the translation. -/
theorem render_cases (c : Translations) (key : String) (default : Option String)
    (args : List (String × Value)) :
    c.render key default args = .ok (c.translated key default args) ∨
      ∃ t e, (c.lookup key).orElse (fun _ ↦ default) = some t ∧ args ≠ [] ∧
        fill args t = .error e ∧ e.inTemplate = false ∧
        c.render key default args = .error e := by
  unfold Translations.render Translations.translated
  cases htemplate : (c.lookup key).orElse fun _ ↦ default with
  | none => exact .inl rfl
  | some t =>
    dsimp only
    by_cases hargs : args.isEmpty = true
    · simp [hargs]
    · cases hfill : fill args t with
      | ok text => simp [hargs]
      | error e =>
        cases hkind : e.inTemplate
        · exact .inr ⟨t, e, rfl, by simpa using hargs, hfill, hkind, by simp [hargs, hkind]⟩
        · simp [hargs, hkind]

/-- Translating a key gives the text it stands for, or is refused with a `TypeError`, an
`AttributeError` or an `OverflowError` met while filling, with values given, a template that has a
field with an attribute, a subscript or a specification. -/
theorem render_returns_or_raises_value_fault (c : Translations) (key : String)
    (default : Option String) (args : List (String × Value)) :
    c.render key default args = .ok (c.translated key default args) ∨
      ∃ t e, (c.lookup key).orElse (fun _ ↦ default) = some t ∧ args ≠ [] ∧
        fill args t = .error e ∧ e.kind ∈ ["TypeError", "AttributeError", "OverflowError"] ∧
        plainFields t = false ∧ c.render key default args = .error e := by
  rcases render_cases c key default args with hok | ⟨t, e, htemplate, hargs, hfill, hkind, herr⟩
  · exact .inl hok
  · -- a fault of a value: the template must have a field that is not a bare name
    have hplain : plainFields t = false := by
      cases hp : plainFields t
      · rfl
      · simpa [hkind] using fill_plain args hp e hfill
    exact .inr ⟨t, e, htemplate, hargs, hfill, FormatError.kind_of_inTemplate_eq_false hkind,
      hplain, herr⟩

/-! ### The catalogs -/

mutual

/-- The texts a tree of messages holds in its objects, at any depth. -/
def messageTexts : Value → List String
  | .str s => [s]
  | .object members => memberTexts members
  | _ => []

/-- The texts the members of an object hold. -/
def memberTexts : List (String × Value) → List String
  | [] => []
  | (_, v) :: ms => messageTexts v ++ memberTexts ms

end

/-- A member found by name holds texts of its object. -/
theorem mem_memberTexts_of_lookup {members : List (String × Value)} {k : String} {v : Value}
    (h : lookup members k = some v) : ∀ t ∈ messageTexts v, t ∈ memberTexts members := by
  induction members with
  | nil => simp at h
  | cons m ms ih =>
    intro t ht
    simp only [lookup_cons] at h
    split at h
    · cases h
      simp [memberTexts, ht]
    · simp [memberTexts, ih h t ht]

/-- A text found by following keys through a tree of objects is one of its texts. -/
theorem mem_messageTexts_of_descend : ∀ (ks : List String) (v : Value) (t : String),
    descend (some v) ks = some (.str t) → t ∈ messageTexts v
  | [], v, t, h => by
    cases h
    simp [messageTexts]
  | k :: ks, v, t, h => by
    cases v with
    | object members =>
      cases hl : lookup members k with
      | none =>
        rw [descend, hl] at h
        cases ks <;> simp [descend] at h
      | some w =>
        rw [descend, hl] at h
        exact mem_memberTexts_of_lookup hl t (mem_messageTexts_of_descend ks w t h)
    | _ => simp [descend] at h

/-- A template a key finds is a text of the catalog. -/
theorem mem_messageTexts_of_lookup {c : Translations} {key t : String} (h : c.lookup key = some t) :
    t ∈ messageTexts c.messages := by
  unfold Translations.lookup at h
  split at h
  · next s hs =>
    cases h
    exact mem_messageTexts_of_descend _ _ _ hs
  · cases h

/-- Every field of every English template is a bare name. -/
theorem plainFields_english : ∀ t ∈ messageTexts englishMessages, plainFields t = true := by
  decide +kernel

/-- Translating a key of the English catalog always gives the text it stands for, for every value
given, as long as a default given has only bare names as fields. -/
theorem english_render_eq_ok (key : String) (default : Option String)
    (args : List (String × Value)) (hdefault : ∀ t, default = some t → plainFields t = true) :
    Translations.english.render key default args =
      .ok (Translations.english.translated key default args) := by
  rcases render_cases Translations.english key default args with
    hok | ⟨t, e, htemplate, -, hfill, hkind, -⟩
  · exact hok
  · -- the template is an English one or the default, and both have bare names only
    have hplain : plainFields t = true := by
      cases hl : Translations.english.lookup key with
      | none =>
        rw [hl] at htemplate
        exact hdefault t htemplate
      | some s =>
        rw [hl] at htemplate
        cases htemplate
        exact plainFields_english t (mem_messageTexts_of_lookup hl)
    simpa [hkind] using fill_plain args hplain e hfill

/-- The empty catalog, used when a locale has no file, finds no key. -/
theorem empty_lookup (key : String) : Translations.empty.lookup key = none := by
  unfold Translations.lookup
  cases key.splitOn "." with
  | nil => rfl
  | cons k ks => cases ks <;> rfl

/-- With no template for the key, a default asking the integer `1` for an attribute `foo` is
refused with an `AttributeError` rather than given back unformatted. -/
theorem empty_render_refuses_missing_attribute :
    Translations.empty.render "missing.key" (some "\x7bx.foo\x7d") [("x", .int 1)] =
      .error (.noAttribute "int" "foo") := by
  have hfill : fill [("x", .int 1)] "\x7bx.foo\x7d" = .error (.noAttribute "int" "foo") := rfl
  simp [Translations.render, empty_lookup, hfill, FormatError.inTemplate]

end TorrentPrune.Catalog
