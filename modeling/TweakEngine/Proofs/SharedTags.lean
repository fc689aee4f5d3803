/-
# Tags of operations and rules

An operation and a rule name a hive and a value kind by tags.  An operation reads its tags when
its definition is read: words in any case and with any separators, and the numbers of older files
(`Labelled.ofTag_cases`).  A rule keeps its tags until it is evaluated, and then it knows words
only: a number names no hive (`Hive.parse?_of_mark`), and the word for a numeric kind may have
`_` in it, but no other separator (`Detection.widthOf?_of_mark`).

So the two agree on every hive tag that is no number.  They agree on every tag of a kind that is
not numeric, and on the tags of numeric kinds that are words without `-` and blanks.
`tags_agree` says that these are all.
-/

import Mathlib.Data.Int.ModEq
import TweakEngine.Proofs.DefinitionFields
import TweakEngine.Proofs.DetectedPayloads

namespace TweakEngine

/-! ## Words and their marks -/

/-- A character that is no letter and is the same in every case. -/
def Text.IsMark (c : Char) : Prop := lowerWordChar c = [c] ∧ c.isLower = false

instance (c : Char) : Decidable (Text.IsMark c) :=
  inferInstanceAs (Decidable (_ ∧ _))

theorem Text.isMark_of_isDigit {c : Char} (h : c.isDigit = true) : IsMark c := by
  obtain ⟨hlow, hhigh⟩ := Decimal.toNat_of_isDigit h
  have hascii : lowerAscii c = c := by
    rw [lowerAscii, if_neg]
    rintro ⟨hA, -⟩
    have : 65 ≤ c.toNat := UInt32.le_iff_toNat_le.mp hA
    omega
  refine ⟨?_, ?_⟩
  · rw [lowerWordChar, if_neg (by omega), if_neg (by omega), hascii]
  · refine Bool.and_eq_false_iff.mpr (.inl (decide_eq_false fun ha => ?_))
    have : 97 ≤ c.toNat := UInt32.le_iff_toNat_le.mp ha
    omega

/-- A mark is still there when case is ignored. -/
theorem Text.mem_lowerWord {s : String} {c : Char} (hc : c ∈ s.toList) (h : IsMark c) :
    c ∈ (lowerWord s).toList := by
  rw [lowerWord, String.toList_ofList, List.mem_flatMap]
  exact ⟨c, hc, h.1 ▸ List.mem_cons_self⟩

namespace Labelled

variable {α : Type} [Labelled α]

/-- A word is read by its normal form. -/
theorem parse?_congr {s t : String} (h : normal s = normal t) :
    (parse? s : Option α) = parse? t := by
  unfold parse?
  rw [h]

/-- The normal forms of all words of a vocabulary. -/
def words (α : Type) [Labelled α] : List (String × α) :=
  (members : List α).map (fun a => (normal (label a), a)) ++
    (members : List α).map (fun a => (normal (constant a), a)) ++ aliases

/-- What is read is the member of a word. -/
theorem mem_words_of_parse? {s : String} {a : α} (h : parse? s = some a) :
    (normal s, a) ∈ words α := by
  unfold parse? at h
  dsimp only at h
  simp only [words, List.mem_append, List.mem_map, Prod.mk.injEq, exists_eq_right_right]
  split at h
  · next m hfind =>
    obtain rfl := Option.some.inj h
    have hmem := List.mem_of_find?_eq_some hfind
    have hword := List.find?_some hfind
    rw [Bool.or_eq_true, beq_iff_eq, beq_iff_eq] at hword
    rcases hword with hlabel | hconstant
    · exact .inl (.inl ⟨hmem, hlabel.symm⟩)
    · exact .inl (.inr ⟨hmem, hconstant.symm⟩)
  · obtain ⟨b, c, hbc, -⟩ := List.lookup_eq_some_iff.mp h
    exact .inr (hbc ▸ List.mem_append_right _ List.mem_cons_self)

/-- The member that a tag names: that of a number in the table, or of the tag's text form. -/
theorem ofTag_cases {table : List (Int × α)} {d : Datum} {a : α}
    (h : ofTag (some table) d = .ok a) :
    (∃ n, d = .int n ∧ table.lookup n = some a) ∨
      (∀ n, d ≠ .int n) ∧ parse? d.display = some a := by
  have hword : ofDatum d = .ok a → parse? d.display = some a := by
    intro hd
    rw [ofDatum] at hd
    split at hd
    · next hparse => rw [hparse, Except.ok.inj hd]
    · cases hd
  cases d with
  | bool => cases h
  | int n =>
    left
    refine ⟨n, rfl, ?_⟩
    simp only [ofTag] at h
    split at h
    · next hlookup => rw [hlookup, Except.ok.inj h]
    · cases h
  | _ =>
    right
    refine ⟨?_, hword h⟩
    rintro n ⟨⟩

end Labelled

/-- A text with a mark that is no separator names no hive. -/
theorem Hive.parse?_of_mark {s : String} {c : Char} (hc : c ∈ s.toList) (h : Text.IsMark c)
    (hkeep : (c != '_' && c != '-' && c != ' ') = true) :
    (Labelled.parse? s : Option Hive) = none := by
  have hletters : ∀ e ∈ Labelled.words Hive, e.1.toList.all Char.isLower = true := by
    decide +kernel
  cases hparse : (Labelled.parse? s : Option Hive) with
  | none => rfl
  | some hive =>
    have hmem : c ∈ (Labelled.normal s).toList := by
      refine Text.mem_lowerWord ?_ h
      rw [String.toList_ofList]
      exact List.mem_filter.mpr ⟨hc, hkeep⟩
    have hlower := List.all_eq_true.mp (hletters _ (Labelled.mem_words_of_parse? hparse)) c hmem
    rw [h.2] at hlower
    cases hlower

theorem Hive.parse?_of_isDigit {s : String} (h : ∃ c ∈ s.toList, c.isDigit = true) :
    (Labelled.parse? s : Option Hive) = none := by
  obtain ⟨c, hc, hdigit⟩ := h
  refine parse?_of_mark hc (Text.isMark_of_isDigit hdigit) ?_
  simp only [Bool.and_eq_true, bne_iff_ne]
  exact ⟨⟨Decimal.ne_of_isDigit hdigit rfl, Decimal.ne_of_isDigit hdigit rfl⟩,
    Decimal.ne_of_isDigit hdigit rfl⟩

/-- No number is the name of a hive. -/
theorem Hive.parse?_render (x : Float) :
    (Labelled.parse? (Decimal.render x) : Option Hive) = none := by
  rcases Decimal.render_marks x with hword | ⟨c, hc, rfl | hdigit⟩
  · have hnone : ∀ w ∈ ["nan", "inf", "-inf"], (Labelled.parse? w : Option Hive) = none := by
      decide +kernel
    exact hnone _ hword
  · exact parse?_of_mark hc (by decide) rfl
  · exact parse?_of_isDigit ⟨c, hc, hdigit⟩

/-- What does not count as given names no hive. -/
theorem Hive.parse?_of_not_truthy {d : Datum} (h : d.truthy = false) :
    (Labelled.parse? d.display : Option Hive) = none := by
  have hnone : ∀ w ∈ ["None", "False", ""], (Labelled.parse? w : Option Hive) = none := by
    decide +kernel
  cases d with
  | null => exact hnone "None" (by simp)
  | bool b =>
    obtain rfl : b = false := h
    exact hnone "False" (by simp)
  | int n => exact parse?_of_isDigit (Decimal.exists_mem_intText n)
  | float x => exact parse?_render x
  | text s =>
    obtain rfl : s = "" := by simpa [Datum.truthy] using h
    exact hnone "" (by simp)
  | list items =>
    obtain rfl : items = [] := by simpa [Datum.truthy] using h
    exact parse?_of_mark (s := "[]") (c := '[') (by decide) (by decide) rfl
  | tuple items =>
    obtain rfl : items = [] := by simpa [Datum.truthy] using h
    exact parse?_of_mark (s := "()") (c := '(') (by decide) (by decide) rfl
  | object fields =>
    obtain rfl : fields = [] := by simpa [Datum.truthy] using h
    exact parse?_of_mark (s := "\x7b\x7d") (c := '\x7b') (by decide) (by decide) rfl
  | bytes bs =>
    obtain rfl : bs = [] := by simpa [Datum.truthy] using h
    exact parse?_of_mark (s := "b''") (c := '\'') (by decide) (by decide) rfl
  | registry => cases h

/-- A tag that names a hive counts as given. -/
theorem Hive.truthy_of_ofTag {d : Datum} {hive : Hive}
    (h : Labelled.ofTag (some numbers) d = .ok hive) : d.truthy = true := by
  rcases Labelled.ofTag_cases h with ⟨n, rfl, hn⟩ | ⟨-, hword⟩
  · have hzero : n ≠ 0 := by
      rintro rfl
      cases hn
    exact bne_iff_ne.mpr hzero
  · cases hd : d.truthy with
    | true => rfl
    | false =>
      rw [parse?_of_not_truthy hd] at hword
      cases hword

namespace Detection

/-! ## Numeric kinds -/

/-- A text with a mark other than `_` is no word for a numeric kind of a rule. -/
theorem widthOf?_of_mark {s : String} {c : Char} (hc : c ∈ s.toList) (h : Text.IsMark c)
    (hkeep : c ≠ '_') : widthOf? s = none := by
  have hmem : c ∈ (Text.lowerWord (String.ofList (s.toList.filter (· != '_')))).toList := by
    refine Text.mem_lowerWord ?_ h
    rw [String.toList_ofList]
    exact List.mem_filter.mpr ⟨hc, bne_iff_ne.mpr hkeep⟩
  have hne : ∀ w, w.toList.all Char.isLower = true →
      Text.lowerWord (String.ofList (s.toList.filter (· != '_'))) ≠ w := by
    rintro _ hlower rfl
    rw [List.all_eq_true] at hlower
    have hc := hlower c hmem
    rw [h.2] at hc
    cases hc
  unfold widthOf?
  dsimp only
  rw [if_neg (not_or.mpr ⟨hne _ rfl, hne _ rfl⟩), if_neg (not_or.mpr ⟨hne _ rfl, hne _ rfl⟩)]

/-- **Words for kinds.**  A rule compares by the kind that an operation reads in the same word,
as long as the word has no separator but `_`. -/
theorem widthOf?_of_word {s : String} (h : (s.toList.all fun c => c != '-' && c != ' ') = true) :
    widthOf? s = (Labelled.parse? s : Option ValueKind).bind ValueKind.width? := by
  have hnormal : Text.lowerWord (String.ofList (s.toList.filter (· != '_'))) =
      Labelled.normal s := by
    rw [Labelled.normal]
    congr 2
    refine List.filter_congr fun c hc => ?_
    rw [Bool.and_assoc, List.all_eq_true.mp h c hc, Bool.and_true]
  have hwidths : ∀ e ∈ Labelled.words ValueKind, e.2.width? =
      if e.1 = "dword" ∨ e.1 = "regdword" then some 32
      else if e.1 = "qword" ∨ e.1 = "regqword" then some 64 else none := by
    decide +kernel
  unfold widthOf?
  rw [hnormal]
  cases hparse : (Labelled.parse? s : Option ValueKind) with
  | some k => exact (hwidths _ (Labelled.mem_words_of_parse? hparse)).symm
  | none =>
    have hne : ∀ w ∈ ["dword", "regdword", "qword", "regqword"], Labelled.normal s ≠ w := by
      have hknown : ∀ w ∈ ["dword", "regdword", "qword", "regqword"],
          (Labelled.parse? w : Option ValueKind).isSome = true ∧ Labelled.normal w = w := by
        decide +kernel
      intro w hw e
      obtain ⟨hsome, hnormal⟩ := hknown w hw
      rw [← Labelled.parse?_congr (e.trans hnormal.symm), hparse] at hsome
      cases hsome
    dsimp only
    rw [if_neg (not_or.mpr ⟨hne _ (by simp), hne _ (by simp)⟩),
      if_neg (not_or.mpr ⟨hne _ (by simp), hne _ (by simp)⟩)]
    rfl

end Detection

/-- Whether a tag is a word without separators but `_`. -/
def Datum.isPlainTag : Datum → Bool
  | .int _ => false
  | d => d.display.toList.all fun c => c != '-' && c != ' '

theorem Datum.isPlainTag_of_word {d : Datum} (h : ∀ n, d ≠ .int n) :
    d.isPlainTag = d.display.toList.all fun c => c != '-' && c != ' ' := by
  cases d with
  | int n => exact absurd rfl (h n)
  | _ => rfl

namespace Detection

/-- Numbers and words with other separators are no words for numeric kinds of a rule. -/
theorem widthOf?_of_not_plain {t : Datum} (h : t.isPlainTag = false) :
    widthOf? t.display = none := by
  by_cases hint : ∃ n, t = .int n
  · obtain ⟨n, rfl⟩ := hint
    obtain ⟨c, hc, hdigit⟩ := Decimal.exists_mem_intText n
    exact widthOf?_of_mark hc (Text.isMark_of_isDigit hdigit) (Decimal.ne_of_isDigit hdigit rfl)
  · rw [Datum.isPlainTag_of_word fun n e => hint ⟨n, e⟩] at h
    obtain ⟨c, hc, hsep⟩ := List.all_eq_false.mp h
    have hmark : c = '-' ∨ c = ' ' := by
      by_contra hnot
      rw [not_or] at hnot
      exact hsep (by rw [bne_iff_ne.mpr hnot.1, bne_iff_ne.mpr hnot.2]; rfl)
    rcases hmark with rfl | rfl
    · exact widthOf?_of_mark hc (by decide) (by decide)
    · exact widthOf?_of_mark hc (by decide) (by decide)

/-- **Kind tags.**  A rule with the kind tag of an operation compares by the width of the
operation's kind, unless the kind is numeric and the tag is no plain word. -/
theorem widthOf?_tag_iff {t : Datum} {kind : ValueKind}
    (h : Labelled.ofTag (some ValueKind.numbers) t = .ok kind) :
    widthOf? t.display = kind.width? ↔ (kind.isInteger = true → t.isPlainTag = true) := by
  cases hplain : t.isPlainTag with
  | true =>
    rcases Labelled.ofTag_cases h with ⟨n, rfl, -⟩ | ⟨hword, hparse⟩
    · cases hplain
    · rw [Datum.isPlainTag_of_word hword] at hplain
      rw [widthOf?_of_word hplain, hparse]
      exact iff_of_true rfl fun _ => rfl
  | false =>
    rw [widthOf?_of_not_plain hplain]
    cases kind <;> decide

/-! ## Comparing as integers -/

/-- Whether an expected value is compared with the observed one as integers of a width. -/
def ComparesIntegers (valueType : String) (width : Nat) : Prop :=
  ∀ (a e : Datum) (m n : Int), integer? a = some m → integer? e = some n →
    (valuesMatch a e valueType = true ↔ m ≡ n [ZMOD 2 ^ width])

theorem comparesIntegers_of_width {valueType : String} {width : Nat}
    (h : widthOf? valueType = some width) : ComparesIntegers valueType width := by
  have hpow : (Nat.pow 2 width : Int) = 2 ^ width := Int.natCast_pow 2 width
  intro a e m n hm hn
  rw [valuesMatch_of_integers h hm hn, beq_iff_eq, hpow, Int.ModEq]

/-- As texts, `1` and `01` differ. -/
theorem not_comparesIntegers {valueType : String} (h : widthOf? valueType = none) (width : Nat) :
    ¬ComparesIntegers valueType width := by
  intro hcompares
  have hthere : ∀ t, Datum.text t ≠ .null := by
    rintro t ⟨⟩
  have htexts : valuesMatch (.text "1") (.text "01") valueType = false := by
    rw [valuesMatch_of_texts (hthere _) (hthere _) h]
    decide +kernel
  have hone := hcompares (.text "1") (.text "01") 1 1 (by decide +kernel) (by decide +kernel)
  rw [hone.mpr rfl] at htexts
  cases htexts

/-- A power of two is no multiple of a larger one. -/
theorem le_of_pow_modEq {w v : Nat} (h : (2 : Int) ^ v ≡ 0 [ZMOD 2 ^ w]) : w ≤ v := by
  have hdvd : ((2 ^ w : Nat) : Int) ∣ ((2 ^ v : Nat) : Int) := by
    rw [Int.natCast_pow, Int.natCast_pow]
    exact Int.modEq_zero_iff_dvd.mp h
  exact (Nat.pow_dvd_pow_iff_le_right (by decide)).mp (Int.natCast_dvd_natCast.mp hdvd)

/-- Two widths differ in what powers of two they take for zero. -/
theorem ComparesIntegers.unique {valueType : String} {w v : Nat} (hw : ComparesIntegers valueType w)
    (hv : ComparesIntegers valueType v) : w = v := by
  have hzero : ∀ k : Nat, (2 : Int) ^ k ≡ 0 [ZMOD 2 ^ w] ↔ (2 : Int) ^ k ≡ 0 [ZMOD 2 ^ v] :=
    fun k => (hw (.int (2 ^ k)) (.int 0) _ _ rfl rfl).symm.trans
      (hv (.int (2 ^ k)) (.int 0) _ _ rfl rfl)
  have hself : ∀ k : Nat, (2 : Int) ^ k ≡ 0 [ZMOD 2 ^ k] :=
    fun k => Int.modEq_zero_iff_dvd.mpr (Int.dvd_refl _)
  exact Nat.le_antisymm (le_of_pow_modEq ((hzero v).mpr (hself v)))
    (le_of_pow_modEq ((hzero w).mp (hself w)))

/-- Values are compared as integers of a width when the word for their kind has this width. -/
theorem comparesIntegers_iff {valueType : String} {width : Nat} :
    ComparesIntegers valueType width ↔ widthOf? valueType = some width := by
  constructor
  · intro h
    cases hw : widthOf? valueType with
    | none => exact absurd h (not_comparesIntegers hw width)
    | some w => rw [(comparesIntegers_of_width hw).unique h]
  · exact comparesIntegers_of_width

/-! ## Hives -/

/-- The outcome of a rule by what was read for it. -/
def judge (rule : Rule) : Reading → Outcome Number
  | .missingKey => outcome rule false "Key not found"
  | .denied text =>
    outcome rule false (if text = "" then "Value not found" else "Access denied: " ++ text)
  | .missingValue => outcome rule false "Value not found"
  | .found value =>
    let actual := (value.map Datum.registry).getD .null
    outcome rule (valuesMatch actual rule.expected rule.valueType) ("Actual: " ++ actual.display)

end Detection

/-- Whether evaluating a rule, with any probe, reads its value under a hive and judges by what was
read. -/
def Rule.LooksUnder (rule : Rule) (hive : Hive) : Prop :=
  ∀ (μ : Type) (probe : Probe μ), Detection.evaluateValue rule probe = do
    return Detection.judge rule (← probe.readValue hive rule.keyPath rule.valueName)

namespace Detection

variable {rule : Rule} {hive : Hive}

/-- A rule looks under the hive that its tag is a word for. -/
theorem looksUnder_of_word (hhive : rule.hive.truthy = true) (hkey : rule.keyPath.truthy = true)
    (hname : rule.valueName.truthy = true) (h : Labelled.parse? rule.hive.display = some hive) :
    rule.LooksUnder hive := by
  intro μ probe
  have hof : (Labelled.ofDatum rule.hive : Except Failure Hive) = .ok hive := by
    rw [Labelled.ofDatum, h]
  unfold evaluateValue
  rw [hhive, hkey, hname, hof]
  refine congrArg (probe.readValue hive rule.keyPath rule.valueName >>= ·) (funext fun reading => ?_)
  cases reading with
  | denied text =>
    dsimp only [judge]
    split <;> simp_all
  | _ => rfl

/-- A rule whose tag is no word for a hive looks nowhere. -/
theorem evaluateValue_of_no_hive {μ : Type} (probe : Probe μ) (hhive : rule.hive.truthy = true)
    (hkey : rule.keyPath.truthy = true) (hname : rule.valueName.truthy = true)
    (h : (Labelled.parse? rule.hive.display : Option Hive) = none) :
    evaluateValue rule probe =
      throw (.malformed (.unknownLabel "RegistryHive" rule.hive.quoted)) := by
  have hof : (Labelled.ofDatum rule.hive : Except Failure Hive) =
      .error (.malformed (.unknownLabel "RegistryHive" rule.hive.quoted)) := by
    rw [Labelled.ofDatum, h]
    rfl
  unfold evaluateValue
  rw [hhive, hkey, hname, hof]
  rfl

end Detection

/-! ## Tags in definitions -/

/-- The tag that a definition has in a field. -/
def Datum.tag? (name : String) (d : Datum) : Option Datum :=
  (Fields.ofDatum "" d).toOption.bind fun f => f.find? [name]

theorem Datum.tag?_of_fields {what name : String} {d : Datum} {f : Fields}
    (h : Fields.ofDatum what d = .ok f) : d.tag? name = f.find? [name] := by
  cases d with
  | object fields => rw [← Except.ok.inj h]; rfl
  | _ => cases h

/-- An operation has the hive and the kind that its tags name. -/
theorem RegistryOperation.tags_of_ofDatum {d : Datum} {op : RegistryOperation}
    (h : ofDatum d = .ok op) :
    (∃ t, d.tag? "hive" = some t ∧ Labelled.ofTag (some Hive.numbers) t = .ok op.hive) ∧
      Labelled.ofTag (some ValueKind.numbers) ((d.tag? "valueType").getD (.text "DWord")) =
        .ok op.kind := by
  obtain ⟨f, hf, h⟩ := ok_of_bind h
  obtain ⟨t, ht, h⟩ := ok_of_bind h
  obtain ⟨hive, hhive, h⟩ := ok_of_bind h
  obtain ⟨keyPath, -, h⟩ := ok_of_bind h
  obtain ⟨kind, hkind, h⟩ := ok_of_bind h
  obtain ⟨action, -, h⟩ := ok_of_bind h
  obtain rfl := Except.ok.inj h
  rw [Datum.tag?_of_fields hf, Datum.tag?_of_fields hf]
  exact ⟨⟨t, (Fields.of_require ht).1, hhive⟩, hkind⟩

/-- A rule keeps its tags. -/
theorem Rule.tags_of_ofDatum {d : Datum} {rule : Rule} (h : ofDatum d = .ok rule) :
    rule.hive = (d.tag? "hive").getD .null ∧
      rule.valueType = ((d.tag? "valueType").getD (.text "DWord")).display := by
  obtain ⟨f, hf, h⟩ := ok_of_bind h
  obtain ⟨confidence, -, h⟩ := ok_of_bind h
  obtain ⟨weight, -, h⟩ := ok_of_bind h
  obtain rfl := Except.ok.inj h
  rw [Datum.tag?_of_fields hf, Datum.tag?_of_fields hf]
  exact ⟨rfl, rfl⟩

/-- **Hive tags.**  A rule with the hive tag of an operation looks under the hive of the
operation, unless the tag is a number: then it looks nowhere. -/
theorem Rule.looksUnder_iff {rule : Rule} {hive : Hive}
    (h : Labelled.ofTag (some Hive.numbers) rule.hive = .ok hive)
    (hkey : rule.keyPath.truthy = true) (hname : rule.valueName.truthy = true) :
    rule.LooksUnder hive ↔ ∀ n, rule.hive ≠ .int n := by
  have hhive := Hive.truthy_of_ofTag h
  rcases Labelled.ofTag_cases h with ⟨n, hn, -⟩ | ⟨hword, hparse⟩
  · refine iff_of_false (fun hlooks => ?_) (fun hall => hall n hn)
    have hnone : (Labelled.parse? rule.hive.display : Option Hive) = none := by
      rw [hn]
      exact Hive.parse?_of_isDigit (Decimal.exists_mem_intText n)
    -- a probe that finds no key tells reading from not reading
    let probe : Probe Unit := {
      readValue := fun _ _ _ => pure .missingKey
      keyExists := fun _ _ => pure false
      queryService := fun _ => throw (.badValue "")
      pathExists := fun _ => pure false
      runDiagnostic := fun _ _ => throw (.badValue "") }
    have hread := hlooks Unit probe
    rw [Detection.evaluateValue_of_no_hive probe hhive hkey hname hnone] at hread
    have hon := congrArg (fun a => (a.on ⟨(), {}, ⟨0⟩, [], []⟩).1.toOption.isSome) hread
    cases hon
  · exact iff_of_true (Detection.looksUnder_of_word hhive hkey hname hparse) hword

/-- **Tags of operations and rules** agree on hives unless the tag is a number, and on the width of
numbers unless the kind is numeric and its tag is a number or has a `-` or a blank. -/
theorem tags_agree {d r : Datum} {op : RegistryOperation} {rule : Rule}
    (hop : RegistryOperation.ofDatum d = .ok op) (hrule : Rule.ofDatum r = .ok rule)
    (hhive : r.tag? "hive" = d.tag? "hive") (hkind : r.tag? "valueType" = d.tag? "valueType")
    (hkey : rule.keyPath.truthy = true) (hname : rule.valueName.truthy = true) :
    (rule.LooksUnder op.hive ↔ ∀ n, d.tag? "hive" ≠ some (.int n)) ∧
    ((∀ w, Detection.ComparesIntegers rule.valueType w ↔ op.kind.width? = some w) ↔
      (op.kind.isInteger = true →
        ∀ t, d.tag? "valueType" = some t → t.isPlainTag = true)) := by
  obtain ⟨⟨t, ht, hhiveTag⟩, hkindTag⟩ := RegistryOperation.tags_of_ofDatum hop
  obtain ⟨hruleHive, hruleType⟩ := Rule.tags_of_ofDatum hrule
  rw [hhive, ht, Option.getD_some] at hruleHive
  rw [hkind] at hruleType
  constructor
  · rw [Rule.looksUnder_iff (hruleHive ▸ hhiveTag) hkey hname, hruleHive, ht]
    simp only [ne_eq, Option.some.injEq]
  · have hwidths : (∀ w, Detection.ComparesIntegers rule.valueType w ↔ op.kind.width? = some w) ↔
        Detection.widthOf? rule.valueType = op.kind.width? := by
      simp only [Detection.comparesIntegers_iff]
      exact Option.ext_iff.symm
    rw [hwidths, hruleType, Detection.widthOf?_tag_iff hkindTag]
    cases d.tag? "valueType" with
    | none =>
      -- without a tag the kind is `DWord`, a plain word
      exact iff_of_true (fun _ => by decide) (fun _ _ => nofun)
    | some t => simp only [Option.getD_some, Option.some.injEq, forall_eq']

/-- An operation and a rule on one value, as far as they are written alike. -/
def sampleTagged (hive kind : Datum) : Datum :=
  .object [("hive", hive), ("keyPath", .text "Software\\Demo"), ("valueName", .text "Level"),
    ("valueType", kind)]

/-- Words in another case, with separators. -/
theorem sample_tags_alike : ∃ op rule,
    RegistryOperation.ofDatum (sampleTagged (.text "hk-lm") (.text "Reg_DWORD")) = .ok op ∧
    Rule.ofDatum (sampleTagged (.text "hk-lm") (.text "Reg_DWORD")) = .ok rule ∧
    rule.keyPath.truthy = true ∧ rule.valueName.truthy = true ∧
    op.hive = .localMachine ∧ rule.LooksUnder .localMachine ∧
    op.kind = .dword ∧ Detection.ComparesIntegers rule.valueType 32 := by
  have hhive : (sampleTagged (.text "hk-lm") (.text "Reg_DWORD")).tag? "hive" =
      some (.text "hk-lm") := rfl
  have hkind : (sampleTagged (.text "hk-lm") (.text "Reg_DWORD")).tag? "valueType" =
      some (.text "Reg_DWORD") := rfl
  have hplain : (Datum.text "Reg_DWORD").isPlainTag = true := by decide
  obtain ⟨hlooks, hcompares⟩ := tags_agree (d := sampleTagged (.text "hk-lm") (.text "Reg_DWORD"))
    (r := sampleTagged (.text "hk-lm") (.text "Reg_DWORD")) rfl rfl rfl rfl rfl rfl
  rw [hhive] at hlooks
  rw [hkind] at hcompares
  refine ⟨_, _, rfl, rfl, rfl, rfl, rfl, hlooks.mpr nofun, rfl, ?_⟩
  exact (hcompares.mpr (fun _ t ht => Option.some.inj ht ▸ hplain) 32).mpr rfl

/-- Numbers of older files. -/
theorem sample_tags_apart : ∃ op rule,
    RegistryOperation.ofDatum (sampleTagged (.int 0x80000002) (.int 4)) = .ok op ∧
    Rule.ofDatum (sampleTagged (.int 0x80000002) (.int 4)) = .ok rule ∧
    rule.keyPath.truthy = true ∧ rule.valueName.truthy = true ∧
    op.hive = .localMachine ∧ ¬rule.LooksUnder .localMachine ∧
    op.kind = .dword ∧ ¬Detection.ComparesIntegers rule.valueType 32 := by
  refine ⟨_, _, rfl, rfl, rfl, rfl, rfl, fun hlooks => ?_, rfl, fun hcompares => ?_⟩
  · exact (Rule.looksUnder_iff rfl rfl rfl).mp hlooks _ rfl
  · have hnone := Detection.widthOf?_of_not_plain (t := .int 4) rfl
    cases hnone.symm.trans (Detection.comparesIntegers_iff.mp hcompares)

end TweakEngine
