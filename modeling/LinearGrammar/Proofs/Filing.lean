import LinearGrammar.Proofs.TextBytes
import LinearGrammar.Session.Files

/-!
# What was saved is there

A session takes its file system as it is. What it can hope for is that a file which was written holds
what was written to it, and that no other file is touched. `LawfulFileSystem` asks for these two
and no more, so that it says nothing of how paths lead to files: which files are others is a matter of
what opening their paths leads to. A write that fails promises nothing.

The flat directory is such a system. What has to be seen for it is that a path which leads somewhere
still leads there when the files have changed, for they are looked at only to tell why a path leads
nowhere.
-/

namespace LinearGrammar

open FileSystem (Handle openFile read write readText writeText)

class LawfulFileSystem (φ : Type) [FileSystem φ] : Prop where
  read_write {files files' : φ} {path : String} {bytes : List UInt8} :
    write files path bytes = (.ok (), files') → read files' path = .ok bytes
  read_write_of_ne {files files' : φ} {path other : String} {bytes : List UInt8}
    {written kept : Handle φ} :
    write files path bytes = (.ok (), files') → openFile files' path = .ok written →
      openFile files other = .ok kept → kept ≠ written → read files' other = read files other

namespace FileSystem

variable {φ : Type} [FileSystem φ]

/-- A text was saved, and nothing else happened to the files. -/
structure Saved (files : φ) (path text : String) (files' : φ) : Prop where
  reads : readText files' path = .ok text
  keeps : ∀ other written kept, openFile files' path = .ok written →
    openFile files other = .ok kept → kept ≠ written → readText files' other = readText files other

theorem saved_writeText [LawfulFileSystem φ] {files : φ} {path text : String}
    (h : (writeText files path text).1 = .ok ()) :
    Saved files path text (writeText files path text).2 := by
  have hwrite : write files path (Text.encode text) = (.ok (), (writeText files path text).2) :=
    Prod.ext h rfl
  refine ⟨?_, fun other written kept hwritten hkept hne => ?_⟩
  · rw [readText, LawfulFileSystem.read_write hwrite]
    simp only [Text.decode_encode]
  · rw [readText, LawfulFileSystem.read_write_of_ne hwrite hwritten hkept hne, readText]

end FileSystem

/-! ## The flat directory -/

namespace Files

/-- The files tell only why a path leads nowhere. -/
theorem follow_of_ok {files : Files} {withSlash : Bool} {directory : Directory}
    {steps : List String} {place : Place} (h : files.follow withSlash directory steps = .ok place)
    (files' : Files) : files'.follow withSlash directory steps = .ok place := by
  fun_induction follow files withSlash directory steps with
  | case1 directory => exact h
  | case2 directory step rest hstay ih =>
      rw [follow, if_pos hstay]
      exact ih h
  | case3 directory step rest hstay hup ih =>
      rw [follow, if_neg hstay, if_pos hup]
      exact ih h
  | case4 directory step rest hstay hup hlast =>
      rw [follow, if_neg hstay, if_neg hup, if_pos hlast]
      exact h
  | case5 | case6 | case7 => cases h

theorem placeOf_of_ok {files : Files} {path : String} {place : Place}
    (h : files.placeOf path = .ok place) (files' : Files) : files'.placeOf path = .ok place := by
  unfold placeOf at h ⊢
  simp only [] at h ⊢
  split at h
  · cases h
  · next hnul =>
      rw [if_neg hnul]
      split at h
      · cases h
      · next hlong =>
          rw [if_neg hlong]
          split at h
          · cases h
          · next hempty =>
              rw [if_neg hempty]
              exact follow_of_ok h files'

theorem openPath_eq_directory_iff {files : Files} {path : String} :
    files.openPath path = .ok .directory ↔ files.placeOf path = .ok .directory := by
  unfold openPath
  constructor
  · intro h
    split at h
    · cases h
    · assumption
    · split at h
      · cases h
      · split at h
        · cases h
        · split at h <;> cases h
  · intro h
    rw [h]

theorem openPath_eq_file_iff {files : Files} {path : String} {location : Location} :
    files.openPath path = .ok (.file location) ↔
      files.placeOf path = .ok (.entry location false) ∧ isOverlong location.name = false ∧
        (files.lookup location).isNone = false := by
  unfold openPath
  constructor
  · intro h
    split at h
    · cases h
    · cases h
    · next hplace =>
        split at h
        · cases h
        · next hshort =>
            split at h
            · cases h
            · next hthere =>
                split at h
                · cases h
                · next hslash =>
                    cases h
                    rw [hplace, Bool.eq_false_iff.2 hslash]
                    exact ⟨rfl, Bool.eq_false_iff.2 hshort, Bool.eq_false_iff.2 hthere⟩
  · rintro ⟨hplace, hshort, hthere⟩
    simp [hplace, hshort, hthere]

theorem writePath_eq_ok {files files' : Files} {path : String} {bytes : List UInt8}
    (h : files.writePath path bytes = (.ok (), files')) :
    ∃ location, files.placeOf path = .ok (.entry location false) ∧
      isOverlong location.name = false ∧ files' = files.put location bytes := by
  unfold writePath at h
  split at h
  · cases h
  · cases h
  · next location withSlash hplace =>
      cases withSlash with
      | true => cases h
      | false =>
          split at h
          · cases h
          · split at h
            · cases h
            · next hshort =>
                cases h
                exact ⟨location, hplace, Bool.eq_false_iff.2 hshort, rfl⟩

theorem lookup_put (files : Files) (location other : Location) (bytes : List UInt8) :
    (files.put location bytes).lookup other =
      if other = location then some bytes else files.lookup other := by
  induction files with
  | nil =>
      simp only [put, List.lookup_cons, List.lookup_nil]
      cases hsame : other == location with
      | true => rw [if_pos (eq_of_beq hsame)]
      | false => rw [if_neg (ne_of_beq_false hsame)]
  | cons entry rest ih =>
      obtain ⟨l, old⟩ := entry
      rw [put]
      split
      · next hl =>
          subst hl
          simp only [List.lookup_cons]
          cases hsame : other == l with
          | true => rw [if_pos (eq_of_beq hsame)]
          | false => simp only [if_neg (ne_of_beq_false hsame)]
      · next hl =>
          simp only [List.lookup_cons]
          cases hsame : other == l with
          | true =>
              rw [if_neg]
              rw [eq_of_beq hsame]
              exact hl
          | false => exact ih

theorem read_writePath {files files' : Files} {path : String} {bytes : List UInt8}
    (h : files.writePath path bytes = (.ok (), files')) :
    ∃ location, files'.openPath path = .ok (.file location) ∧
      files'.contents location = bytes ∧
      ∀ other ≠ location, files'.lookup other = files.lookup other := by
  obtain ⟨location, hplace, hshort, rfl⟩ := writePath_eq_ok h
  have hlookup : (files.put location bytes).lookup location = some bytes := by
    rw [lookup_put, if_pos rfl]
  refine ⟨location, openPath_eq_file_iff.2 ⟨placeOf_of_ok hplace _, hshort, ?_⟩, ?_, ?_⟩
  · rw [hlookup]
    rfl
  · rw [contents, hlookup]
    rfl
  · intro other hne
    rw [lookup_put, if_neg hne]

instance : LawfulFileSystem Files where
  read_write {files files' path bytes} h := by
    obtain ⟨location, hopen, hcontents, -⟩ := read_writePath h
    change (files'.openPath path).bind files'.readOpened = .ok bytes
    rw [hopen, ← hcontents]
    rfl
  read_write_of_ne {files files' path other bytes written kept} h hwritten hkept hne := by
    obtain ⟨location, hopen, -, hothers⟩ := read_writePath h
    cases hopen.symm.trans hwritten
    change (files'.openPath other).bind files'.readOpened =
      (files.openPath other).bind files.readOpened
    replace hkept : files.openPath other = .ok kept := hkept
    rw [hkept]
    cases kept with
    | directory =>
        rw [openPath_eq_directory_iff.2 (placeOf_of_ok (openPath_eq_directory_iff.1 hkept) files')]
        rfl
    | file l =>
        have hl : files'.lookup l = files.lookup l := hothers l fun he => hne (congrArg _ he)
        obtain ⟨hplace, hshort, hthere⟩ := openPath_eq_file_iff.1 hkept
        rw [openPath_eq_file_iff.2 ⟨placeOf_of_ok hplace files', hshort, hl ▸ hthere⟩]
        change Except.ok (files'.contents l) = Except.ok (files.contents l)
        rw [contents, hl, contents]

end Files

end LinearGrammar
