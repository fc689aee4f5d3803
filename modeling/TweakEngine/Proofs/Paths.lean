/-
# Paths and their texts

The pieces of a text without the character at which it is cut are the text again when
they are joined (`Text.splitChars_join`), so a path in normal form is read back from
its text (`Path.ofText_text`).  Joining the pieces of any text gives that text
(`Text.join_splitOnChar`).
-/

import TweakEngine.Disk.Path
import TweakEngine.Proofs.JsonTexts

namespace TweakEngine

namespace Text

variable {sep : Char} {a b : List Char}

theorem splitChars_of_not_mem (h : sep ∉ a) : splitChars sep a = [a] := by
  induction a with
  | nil => rfl
  | cons c a ih =>
    rw [List.mem_cons, not_or] at h
    rw [splitChars, if_neg (Ne.symm h.1), ih h.2]

theorem splitChars_ne_nil (sep : Char) (cs : List Char) : splitChars sep cs ≠ [] := by
  cases cs with
  | nil => exact List.cons_ne_nil _ _
  | cons c cs =>
    rw [splitChars]
    split
    · exact List.cons_ne_nil _ _
    · split <;> exact List.cons_ne_nil _ _

/-- A text is cut at each place separately. -/
theorem splitChars_cut (a b : List Char) :
    splitChars sep (a ++ sep :: b) = splitChars sep a ++ splitChars sep b := by
  induction a with
  | nil =>
    change splitChars sep (sep :: b) = [] :: splitChars sep b
    rw [splitChars, if_pos rfl]
  | cons c a ih =>
    rw [List.cons_append, splitChars, splitChars, ih]
    by_cases hc : c = sep
    · rw [if_pos hc, if_pos hc, List.cons_append]
    · rw [if_neg hc, if_neg hc]
      cases hpieces : splitChars sep a with
      | nil => exact absurd hpieces (splitChars_ne_nil sep a)
      | cons piece rest => rfl

theorem splitChars_append (h : sep ∉ a) (b : List Char) :
    splitChars sep (a ++ sep :: b) = a :: splitChars sep b := by
  rw [splitChars_cut, splitChars_of_not_mem h, List.singleton_append]

/-- No piece has the character at which a text is cut. -/
theorem not_mem_of_mem_splitChars : ∀ {cs piece : List Char}, piece ∈ splitChars sep cs → sep ∉ piece
  | [], piece, h => by
    rw [splitChars, List.mem_singleton] at h
    rw [h]
    exact List.not_mem_nil
  | c :: cs, piece, h => by
    rw [splitChars] at h
    split at h
    · rcases List.mem_cons.mp h with rfl | h
      · exact List.not_mem_nil
      · exact not_mem_of_mem_splitChars h
    · next hc =>
      split at h
      · rw [List.mem_singleton.mp h, List.mem_singleton]
        exact Ne.symm hc
      · next first rest heq =>
        have ih : ∀ p ∈ first :: rest, sep ∉ p := fun p hp =>
          not_mem_of_mem_splitChars (heq ▸ hp)
        rcases List.mem_cons.mp h with rfl | h
        · rw [List.mem_cons, not_or]
          exact ⟨Ne.symm hc, ih first List.mem_cons_self⟩
        · exact ih piece (List.mem_cons_of_mem _ h)

theorem splitChars_join {parts : List String} (hne : parts ≠ [])
    (h : ∀ part ∈ parts, sep ∉ part.toList) :
    splitChars sep (join (String.singleton sep) parts).toList = parts.map String.toList := by
  induction parts with
  | nil => exact absurd rfl hne
  | cons part parts ih =>
    have hpart := h part List.mem_cons_self
    by_cases hparts : parts = []
    · subst hparts
      simpa [join] using splitChars_of_not_mem hpart
    · rw [join_cons hparts, String.toList_singleton, List.singleton_append, splitChars_append hpart,
        ih hparts fun p hp => h p (List.mem_cons_of_mem _ hp), List.map_cons]

theorem join_append (sep : String) : ∀ {parts more : List String}, parts ≠ [] → more ≠ [] →
    (join sep (parts ++ more)).toList =
      (join sep parts).toList ++ (sep.toList ++ (join sep more).toList)
  | [part], more, _, hmore => by
    rw [List.singleton_append, join_cons hmore]
    simp [join]
  | part :: next :: parts, more, _, hmore => by
    have ih := join_append sep (List.cons_ne_nil next parts) hmore
    rw [List.cons_append, join_cons (List.append_ne_nil_of_left_ne_nil (List.cons_ne_nil _ _) _), ih,
      join_cons (List.cons_ne_nil next parts)]
    simp only [List.append_assoc]

/-- The pieces of a text give the text again. -/
theorem join_splitOnChar (sep : Char) (s : String) :
    join (String.singleton sep) (splitOnChar sep s) = s := by
  have hchars : ∀ cs : List Char,
      (join (String.singleton sep) ((splitChars sep cs).map String.ofList)).toList = cs := by
    intro cs
    induction cs with
    | nil => simp [splitChars, join]
    | cons c cs ih =>
      rw [splitChars]
      obtain ⟨piece, rest, hpieces⟩ := List.exists_cons_of_ne_nil (splitChars_ne_nil sep cs)
      split
      · next hc =>
        rw [List.map_cons, join_cons (by simpa using splitChars_ne_nil sep cs), ih, hc]
        simp
      · rw [hpieces] at ih ⊢
        dsimp only
        by_cases hrest : rest = []
        · subst hrest
          simpa [join] using ih
        · rw [List.map_cons, join_cons (by simpa using hrest)] at ih ⊢
          simpa using ih
  exact String.toList_inj.mp (hchars s.toList)

end Text

namespace Path

variable {p base : Path} {name : String}

/-- A path in normal form: no part is empty, a dot, or has a slash. -/
def Normal (p : Path) : Prop := ∀ part ∈ p.parts, part ≠ "" ∧ part ≠ "." ∧ '/' ∉ part.toList

theorem ofText_normal (s : String) : (ofText s).Normal := by
  intro part h
  rw [ofText, List.mem_filter, decide_eq_true_eq] at h
  refine ⟨h.2.1, h.2.2, ?_⟩
  obtain ⟨piece, hpiece, rfl⟩ := List.mem_map.mp h.1
  rw [String.toList_ofList]
  exact Text.not_mem_of_mem_splitChars hpiece

/-- A name of a file below a directory. -/
structure PlainName (name : String) : Prop where
  nonempty : name ≠ ""
  notHere : name ≠ "."
  notAbove : name ≠ ".."
  noSlash : '/' ∉ name.toList

theorem PlainName.ofText (h : PlainName name) : ofText name = ⟨.relative, [name]⟩ := by
  have hslashes : name.toList.takeWhile (· == '/') = [] := by
    cases hcs : name.toList with
    | nil => rfl
    | cons c cs =>
      have hc : c ≠ '/' := fun e => h.noSlash (hcs ▸ e ▸ List.mem_cons_self)
      simp [hc]
  rw [Path.ofText, Text.splitOnChar, Text.splitChars_of_not_mem h.noSlash, hslashes]
  simp [Root.ofSlashes, h.nonempty, h.notHere]

theorem PlainName.child (h : PlainName name) (base : Path) :
    base.child name = ⟨base.root, base.parts ++ [name]⟩ := by
  rw [Path.child, h.ofText]
  rfl

theorem Normal.child (hb : base.Normal) (h : PlainName name) : (base.child name).Normal := by
  rw [h.child]
  intro part hpart
  rcases List.mem_append.mp hpart with hpart | hpart
  · exact hb part hpart
  · rw [List.mem_singleton.mp hpart]
    exact ⟨h.nonempty, h.notHere, h.noSlash⟩

/-- **A path in normal form** is read back from its text. -/
theorem ofText_text (h : p.Normal) : ofText p.text = p := by
  obtain ⟨root, parts⟩ := p
  by_cases hparts : parts = []
  · subst hparts
    cases root <;> rfl
  have hjoin : ∃ c cs, (Text.join "/" parts).toList = c :: cs ∧ c ≠ '/' := by
    obtain ⟨part, rest, rfl⟩ := List.exists_cons_of_ne_nil hparts
    obtain ⟨hne, -, hslash⟩ := h part List.mem_cons_self
    obtain ⟨c, cs, hcs⟩ := List.exists_cons_of_ne_nil (l := part.toList) (by simpa using hne)
    have hc : c ≠ '/' := fun e => hslash (hcs ▸ e ▸ List.mem_cons_self)
    by_cases hrest : rest = []
    · subst hrest
      exact ⟨c, cs, by rw [← hcs]; simp [Text.join], hc⟩
    · exact ⟨c, _, by rw [Text.join_cons hrest, hcs, List.cons_append], hc⟩
  have hsplit : Text.splitChars '/' (Text.join "/" parts).toList = parts.map String.toList :=
    Text.splitChars_join hparts fun part hp => (h part hp).2.2
  have hfilter : (parts.filter fun p => p ≠ "" ∧ p ≠ ".") = parts :=
    List.filter_eq_self.mpr fun part hp => by simp [(h part hp).1, (h part hp).2.1]
  have hback : (parts.map String.toList).map String.ofList = parts := by
    rw [List.map_map]
    exact (List.map_congr_left fun s _ => String.ofList_toList).trans (List.map_id _)
  obtain ⟨c, cs, hcs, hc⟩ := hjoin
  have hstart : (c :: cs).takeWhile (· == '/') = [] := by
    rw [List.takeWhile_cons, if_neg (by simpa using hc)]
  have hslash : ∀ l, ('/' :: l).takeWhile (· == '/') = '/' :: l.takeWhile (· == '/') := fun _ =>
    List.takeWhile_cons_of_pos rfl
  have htext : (Path.mk root parts).text = root.text ++ Text.join "/" parts := by
    rw [text, if_neg fun hp => hparts hp.2]
  rw [hcs] at hsplit
  rw [htext, ofText, Text.splitOnChar, String.toList_append, hcs]
  -- the slashes of the root are empty pieces
  cases root with
  | relative =>
    rw [show Root.relative.text.toList = [] from rfl, List.nil_append, hstart, hsplit, hback, hfilter]
    rfl
  | slash =>
    rw [show Root.slash.text.toList = ['/'] from rfl, List.singleton_append, Text.splitChars,
      if_pos rfl, hsplit, List.map_cons, hback, List.filter_cons_of_neg (by simp), hfilter,
      hslash, hstart]
    rfl
  | doubleSlash =>
    rw [show Root.doubleSlash.text.toList = ['/', '/'] from rfl, List.cons_append,
      List.singleton_append, Text.splitChars, if_pos rfl, Text.splitChars, if_pos rfl, hsplit,
      List.map_cons, List.map_cons, hback, List.filter_cons_of_neg (by simp),
      List.filter_cons_of_neg (by simp), hfilter,
      hslash, hslash, hstart]
    rfl

end Path

end TweakEngine
