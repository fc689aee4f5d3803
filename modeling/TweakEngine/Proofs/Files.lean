/-
# Files of a directory

The location of a file of a directory depends only on where the directories are
(`Disk.SameFolders`), and writing and removing files keeps these.  A JSON file that was
written is read back (`Disk.readJson_on`): its bytes are those of an ASCII text.
-/

import TweakEngine.Disk.Json
import TweakEngine.Proofs.Actions
import TweakEngine.Proofs.JsonValues
import TweakEngine.Proofs.Paths
import Mathlib.Data.List.Basic

namespace TweakEngine

namespace Encoding

theorem utf8Step_ascii {c : Char} (h : c.toNat < 128) (rest : List UInt8) :
    utf8Step (UInt8.ofNat c.toNat) rest = .ok (c, 1) := by
  have hn : (UInt8.ofNat c.toNat).toNat = c.toNat := by
    rw [UInt8.toNat_ofNat']
    exact Nat.mod_eq_of_lt (by omega)
  have hstart : startByte? (UInt8.ofNat c.toNat) = some (1, c.toNat) := by
    rw [startByte?, hn]
    exact if_pos h
  rw [utf8Step, hstart]
  simp

theorem decodeFrom_ascii : ∀ {cs : List Char} {fuel position : Nat} {acc : List Char},
    (∀ c ∈ cs, c.toNat < 128) → cs.length ≤ fuel →
    decodeFrom fuel position acc (cs.flatMap utf8Char) = .ok (acc.reverse ++ cs)
  | [], fuel, _, _, _, _ => by cases fuel <;> simp [decodeFrom]
  | c :: cs, 0, _, _, _, hf => absurd hf (Nat.not_succ_le_zero _)
  | c :: cs, fuel + 1, position, acc, h, hf => by
    have hc := h c List.mem_cons_self
    have hchar : utf8Char c = [UInt8.ofNat c.toNat] := if_pos hc
    rw [List.flatMap_cons, hchar, List.singleton_append, decodeFrom, utf8Step_ascii hc]
    dsimp only
    rw [Nat.sub_self, List.drop_zero, decodeFrom_ascii (fun c' hc' => h c' (List.mem_cons_of_mem _ hc'))
      (Nat.le_of_succ_le_succ hf), List.reverse_cons, List.append_assoc]
    rfl

/-- Reading the bytes of an ASCII text. -/
theorem decode_utf8 {s : String} (h : ∀ c ∈ s.toList, c.toNat < 128) : decode (utf8 s) = .ok s := by
  have hbytes : s.toList.flatMap utf8Char = s.toList.map fun c => UInt8.ofNat c.toNat := by
    rw [List.map_eq_flatMap]
    exact List.flatMap_congr fun c hc => if_pos (h c hc)
  have hlen : s.toList.length ≤ (s.toList.flatMap utf8Char).length :=
    Nat.le_of_eq (by rw [hbytes, List.length_map])
  rw [decode, decodeChars, utf8, decodeFrom_ascii h hlen]
  exact congrArg Except.ok String.ofList_toList

theorem unifyLineEnds_of_not_mem : ∀ {cs : List Char}, '\r' ∉ cs → unifyLineEnds cs = cs
  | [], _ => rfl
  | c :: cs, h => by
    rw [List.mem_cons, not_or] at h
    rw [unifyLineEnds, unifyLineEnds_of_not_mem h.2]
    · exact fun _ e => absurd e.symm h.1
    · exact fun e => absurd e.symm h.1

end Encoding

namespace Json

mutual

/-- Everything in a value that a file holds exactly has a form in JSON. -/
theorem foreign?_exact : ∀ {d : Datum}, d.Exact → foreign? d = none
  | .null, _ => rfl
  | .bool _, _ => rfl
  | .int _, _ => rfl
  | .text _, _ => rfl
  | .list _, h => foreignItem?_exact h
  | .object _, h => foreignField?_exact h.2

theorem foreignItem?_exact : ∀ {xs : List Datum}, Datum.ExactItems xs → foreignItem? xs = none
  | [], _ => rfl
  | x :: xs, h => by rw [foreignItem?, foreign?_exact h.1, foreignItem?_exact h.2]; rfl

theorem foreignField?_exact : ∀ {fs : List (String × Datum)}, Datum.ExactFields fs →
    foreignField? fs = none
  | [], _ => rfl
  | (_, x) :: fs, h => by rw [foreignField?, foreign?_exact h.1, foreignField?_exact h.2]; rfl

end

/-- The text of a written file. -/
theorem textOf_write {d : Datum} (h : d.Exact) :
    Disk.textOf (Encoding.utf8 (write fileLayout d)) = .ok (write fileLayout d) := by
  have hshown := shown_write h
  have hascii : ∀ c ∈ (write fileLayout d).toList, c.toNat < 128 := fun c hc => by
    rcases hshown c hc with rfl | ⟨-, hlt⟩
    · decide
    · omega
  have hreturn : '\r' ∉ (write fileLayout d).toList := fun hc =>
    absurd (hshown _ hc) (by decide)
  rw [Disk.textOf, Encoding.decode_utf8 hascii]
  dsimp only
  rw [Encoding.unifyLineEnds_of_not_mem hreturn, String.ofList_toList]

end Json

namespace Disk

variable {d d' : Disk} {p dir : Path} {loc loc' : List String} {name : String} {bytes : List UInt8}

/-- The same directories stand at the same places. -/
structure SameFolders (d d' : Disk) : Prop where
  here : d'.here = d.here
  folder : ∀ loc, d'.at? loc = some .directory ↔ d.at? loc = some .directory

theorem SameFolders.refl (d : Disk) : SameFolders d d := ⟨rfl, fun _ => .rfl⟩

theorem SameFolders.trans {d'' : Disk} (h : SameFolders d d') (h' : SameFolders d' d'') :
    SameFolders d d'' :=
  ⟨h'.here.trans h.here, fun loc => (h'.folder loc).trans (h.folder loc)⟩

theorem follow_cons {rest : List String} (h : d.at? loc = some .directory) :
    d.follow loc (name :: rest) =
      if name = ".." then d.follow loc.dropLast rest
      else if (Encoding.utf8 name).length > maxName then .error .nameTooLong
      else d.follow (loc ++ [name]) rest := by
  rw [follow, h]

/-- Parts can be followed from directories only. -/
theorem folder_of_follow {rest : List String} (h : d.follow loc (name :: rest) = .ok loc') :
    d.at? loc = some .directory := by
  rw [follow] at h
  split at h
  · cases h
  · cases h
  · assumption

/-- Following parts needs directories only. -/
theorem SameFolders.follow (h : SameFolders d d') :
    ∀ {parts loc : List String}, d.follow loc parts = .ok loc' → d'.follow loc parts = .ok loc'
  | [], _, hf => hf
  | name :: rest, loc, hf => by
    have hdir := folder_of_follow hf
    rw [follow_cons hdir] at hf
    rw [follow_cons ((h.folder loc).mpr hdir)]
    split at hf
    · next hname => rw [if_pos hname]; exact h.follow hf
    · next hname =>
      rw [if_neg hname]
      split at hf
      · cases hf
      · next hlen => rw [if_neg hlen]; exact h.follow hf

/-- Following one part more. -/
theorem follow_append_one (hname : name ≠ "..") : ∀ {parts loc : List String},
    d.follow loc (parts ++ [name]) = .ok loc' →
    ∃ dloc, d.follow loc parts = .ok dloc ∧ loc' = dloc ++ [name]
  | [], loc, h => by
    rw [List.nil_append, follow_cons (folder_of_follow h), if_neg hname] at h
    split at h <;> cases h
    exact ⟨loc, rfl, rfl⟩
  | part :: rest, loc, h => by
    have hdir := folder_of_follow h
    rw [List.cons_append, follow_cons hdir] at h
    rw [follow_cons hdir]
    split at h
    · next hup => rw [if_pos hup]; exact follow_append_one hname h
    · next hup =>
      rw [if_neg hup]
      split at h
      · cases h
      · next hlen => rw [if_neg hlen]; exact follow_append_one hname h

/-- A path has a location when its parts can be followed and its text is not too long. -/
theorem locate_ok_iff : d.locate p = .ok loc ↔
    p.text.toList.contains (Char.ofNat 0) = false ∧ (Encoding.utf8 p.text).length ≤ maxPath ∧
      d.follow (if p.isAbsolute then [] else d.here) p.parts = .ok loc := by
  unfold locate
  split
  · next h => exact ⟨nofun, fun hp => absurd (hp.1.symm.trans h) Bool.false_ne_true⟩
  · next h =>
    split
    · next hlen => exact ⟨nofun, fun hp => absurd hlen (Nat.not_lt.mpr hp.2.1)⟩
    · next hlen =>
      cases d.follow (if p.isAbsolute then [] else d.here) p.parts with
      | error k => simp [Except.mapError]
      | ok l => simpa [Except.mapError, Nat.not_lt.mp hlen] using fun _ => h

theorem SameFolders.locate (h : SameFolders d d') (hl : d.locate p = .ok loc) :
    d'.locate p = .ok loc := by
  obtain ⟨hnull, hlen, hfollow⟩ := locate_ok_iff.mp hl
  exact locate_ok_iff.mpr ⟨hnull, hlen, by rw [h.here]; exact h.follow hfollow⟩

/-- A file of a directory stands below it. -/
theorem locate_child {dloc : List String} (hname : Path.PlainName name)
    (hdir : d.locate dir = .ok dloc) (h : d.locate (dir.child name) = .ok loc) :
    loc = dloc ++ [name] := by
  have hfollow := (locate_ok_iff.mp h).2.2
  rw [hname.child] at hfollow
  obtain ⟨dloc', hdloc, rfl⟩ := follow_append_one hname.notAbove hfollow
  cases (locate_ok_iff.mp hdir).2.2.symm.trans hdloc
  rfl

/-- The disk with a file at a location. -/
def withFile (d : Disk) (loc : List String) (bytes : List UInt8) : Disk :=
  { d with entries := Assoc.put loc (.file bytes) d.entries }

/-- The disk without what stands at a location. -/
def without (d : Disk) (loc : List String) : Disk :=
  { d with entries := Assoc.erase loc d.entries }

theorem ne_nil_of_not_folder (h : d.at? loc ≠ some .directory) : loc ≠ [] := fun e =>
  h (by rw [e]; rfl)

theorem at?_withFile (h : d.at? loc ≠ some .directory) (bytes : List UInt8)
    (loc' : List String) : (d.withFile loc bytes).at? loc' =
      if loc = loc' then some (.file bytes) else d.at? loc' := by
  unfold at?
  by_cases hnil : loc' = []
  · subst hnil
    rw [if_pos rfl, if_pos rfl, if_neg (ne_nil_of_not_folder h)]
  · rw [if_neg hnil, if_neg hnil, withFile, Assoc.get?_put]

theorem at?_without (h : d.at? loc ≠ some .directory) (loc' : List String) :
    (d.without loc).at? loc' = if loc = loc' then none else d.at? loc' := by
  unfold at?
  by_cases hnil : loc' = []
  · subst hnil
    rw [if_pos rfl, if_pos rfl, if_neg (ne_nil_of_not_folder h)]
  · rw [if_neg hnil, if_neg hnil, without, Assoc.get?_erase]

/-- Writing a file moves no directory. -/
theorem sameFolders_withFile (h : d.at? loc ≠ some .directory) (bytes : List UInt8) :
    SameFolders d (d.withFile loc bytes) := by
  refine ⟨rfl, fun loc' => ?_⟩
  rw [at?_withFile h]
  split
  · next e => rw [← e]; exact ⟨nofun, fun hd => absurd hd h⟩
  · exact .rfl

/-- Removing a file moves no directory. -/
theorem sameFolders_without (h : d.at? loc ≠ some .directory) : SameFolders d (d.without loc) := by
  refine ⟨rfl, fun loc' => ?_⟩
  rw [at?_without h]
  split
  · next e => rw [← e]; exact ⟨nofun, fun hd => absurd hd h⟩
  · exact .rfl

theorem locating_on (h : d.locate p = .ok loc) : (locating p).on d = (.ok loc, d) := by
  rw [locating, Act.on_of, h]

theorem present_on (h : d.locate p = .ok loc) :
    (present p).on d = (.ok (d.at? loc).isSome, d) := by
  rw [present, Act.on_of, look, h]
  rfl

/-- Writing a file where no directory stands. -/
theorem writeText_on (h : d.locate p = .ok loc) (hf : d.at? loc ≠ some .directory) (s : String) :
    (writeText p s).on d = (.ok (), d.withFile loc (Encoding.utf8 s)) := by
  have hw : (writable p).on d = (.ok loc, d) := by
    rw [writable, Act.on_bind, locating_on h]
    dsimp only
    rw [Act.on_bind, Act.on_view]
    dsimp only
    split
    · next heq => exact absurd heq hf
    · rfl
  rw [writeText, writeBytes, Act.on_bind, hw]
  rfl

theorem writeText_on_error {f : Failure} (h : d.locate p = .error f) (s : String) :
    (writeText p s).on d = (.error f, d) := by
  have hl : (locating p).on d = (.error f, d) := by rw [locating, Act.on_of, h]
  rw [writeText, writeBytes, writable, Act.on_bind, Act.on_bind, hl]

/-- Writing a JSON file. -/
theorem writeJson_on (h : d.locate p = .ok loc) (hf : d.at? loc ≠ some .directory) {x : Datum}
    (hx : x.Exact) : (writeJson p x).on d =
      (.ok (), d.withFile loc (Encoding.utf8 (Json.write Json.fileLayout x))) := by
  rw [writeJson, Json.foreign?_exact hx]
  exact writeText_on h hf _

/-- **Reading a JSON file** that was written gives the value back. -/
theorem readJson_on (h : d.locate p = .ok loc) {x : Datum} (hx : x.Exact)
    (he : d.at? loc = some (.file (Encoding.utf8 (Json.write Json.fileLayout x)))) :
    (readJson p).on d = (.ok x, d) := by
  have hbytes : (readBytes p).on d =
      (.ok (Encoding.utf8 (Json.write Json.fileLayout x)), d) := by
    rw [readBytes, Act.on_bind, locating_on h]
    dsimp only
    rw [Act.on_bind, Act.on_view, he]
    rfl
  rw [readJson, Act.on_bind, readText, Act.on_bind, hbytes]
  dsimp only
  rw [Act.on_result, Json.textOf_write hx]
  dsimp only
  rw [Act.on_result, Json.read_write hx]

/-- Removing a file. -/
theorem unlink_on (h : d.locate p = .ok loc) (he : d.at? loc = some (.file bytes)) :
    (unlink p).on d = (.ok (), d.without loc) := by
  rw [unlink, Act.on_bind, locating_on h]
  dsimp only
  rw [Act.on_bind, Act.on_view, he]
  rfl

/-- A directory that exists is kept. -/
theorem makeDirs_on (h : d.locate p = .ok loc) (he : d.at? loc = some .directory) :
    (makeDirs p).on d = (.ok (), d) := by
  have hmake : (makeDir p).on d = (.error (.system (.onPath .exists p.text)), d) := by
    rw [makeDir, Act.on_bind, locating_on h]
    dsimp only
    rw [Act.on_bind, Act.on_view, he]
    rfl
  have hdir : (isDir p).on d = (.ok true, d) := by
    rw [isDir, Act.on_of, look, h]
    dsimp only
    rw [he]
    rfl
  have hkind : (SystemError.onPath .exists p.text).kind ≠ .notFound :=
    (by decide : SystemErrorKind.exists ≠ .notFound)
  unfold makeDirs makeDirsWithin
  rw [Act.on_bind, Act.on_attempt, hmake]
  dsimp only
  rw [if_neg hkind, Act.on_bind, hdir]
  rfl

end Disk
end TweakEngine
