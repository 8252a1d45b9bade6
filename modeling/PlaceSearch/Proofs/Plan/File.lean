import Mathlib.Data.String.Basic
import PlaceSearch.Plan.Source

/-!
# The names of plan files

The file of a plan lies in the directory of plans, whatever the plan is called: its name holds no
sign that separates the parts of a path, and no part of a path that leads elsewhere.  What it keeps
of the name of the plan is cut by the number of characters, while the names of files are limited in
bytes.  So some plans with names in scripts of three bytes a character, and no others, have a file
that can be neither written nor read.
-/

namespace PlaceSearch

/-! ## Bytes -/

theorem utf8Len_le {k : Nat} {cs : List Char} (h : ∀ c ∈ cs, c.utf8Size ≤ k) :
    String.utf8Len cs ≤ k * cs.length := by
  induction cs with
  | nil => simp
  | cons c cs ih =>
    obtain ⟨hc, hcs⟩ := List.forall_mem_cons.mp h
    have hrest := ih hcs
    rw [String.utf8Len_cons, List.length_cons, Nat.mul_succ]
    omega

theorem utf8Len_eq_length {cs : List Char} (h : ∀ c ∈ cs, c.utf8Size = 1) :
    String.utf8Len cs = cs.length := by
  induction cs with
  | nil => rfl
  | cons c cs ih =>
    obtain ⟨hc, hcs⟩ := List.forall_mem_cons.mp h
    rw [String.utf8Len_cons, ih hcs, hc, List.length_cons]

/-! ## Digests -/

namespace Text

/-- The hexadecimal digits. -/
def hexDigits : List Char := "0123456789abcdef".toList

theorem hexDigit_mem {n : Nat} (h : n < 16) : Digest.hexDigit n ∈ hexDigits := by
  have hall : ∀ n < 16, Digest.hexDigit n ∈ hexDigits := by decide
  exact hall n h

theorem mem_hexDigits_of_mem_hexWord {w : UInt32} {c : Char} (h : c ∈ Digest.hexWord w) :
    c ∈ hexDigits := by
  rw [Digest.hexWord, List.mem_flatMap] at h
  obtain ⟨i, -, hc⟩ := h
  rw [List.mem_cons, List.mem_singleton] at hc
  rcases hc with rfl | rfl
  · exact hexDigit_mem (by omega)
  · exact hexDigit_mem (by omega)

theorem mem_hexDigits_of_mem_digest {s : String} {c : Char} (h : c ∈ (digest s).toList) :
    c ∈ hexDigits := by
  rw [digest, String.toList_ofList, Digest.hex, List.mem_flatMap] at h
  obtain ⟨i, -, hc⟩ := h
  exact mem_hexDigits_of_mem_hexWord hc

theorem length_digest (s : String) : (digest s).toList.length = 64 := by
  rw [digest, String.toList_ofList, Digest.length_hex]

end Text

/-! ## Names of files -/

/-- The text is one part of a path, and stands for a file in the directory that it is taken from. -/
structure IsComponent (file : String) : Prop where
  no_slash : '/' ∉ file.toList
  no_backslash : '\\' ∉ file.toList
  no_nul : '\x00' ∉ file.toList
  ne_empty : file ≠ ""
  ne_dot : file ≠ "."
  ne_dotdot : file ≠ ".."

/-- What the file of a plan keeps of its name: the first characters, with some of them replaced. -/
def keptPart (name : String) : String :=
  String.ofList ((name.toList.map fileChar).take 96)

/-- The digits in the name of the file of a plan. -/
def fileDigits (name : String) : List Char :=
  (Text.digest name).toList.take 16

variable {name : String} {c : Char}

theorem length_fileDigits (name : String) : (fileDigits name).length = 16 := by
  rw [fileDigits, List.length_take, Text.length_digest]
  rfl

theorem planFile_eq (name : String) :
    planFile name = keptPart name ++ String.ofList ('_' :: fileDigits name) ++ ".json" :=
  congrArg (· ++ ".json") String.ofList_append

theorem fileChar_eq_or (c : Char) :
    fileChar c = '_' ∨ fileChar c = '-' ∨ fileChar c = c ∧ Text.isAlphanumeric c = true := by
  rw [fileChar]
  split
  · rename_i h
    simp only [Bool.or_eq_true, beq_iff_eq] at h
    rcases h with (h | rfl) | rfl
    · exact .inr (.inr ⟨rfl, h⟩)
    · exact .inl rfl
    · exact .inr (.inl rfl)
  · exact .inl rfl

/-- The name of a file holds letters, numbers, `_`, `-` and the point before its ending. -/
theorem mem_toList_planFile (h : c ∈ (planFile name).toList) :
    Text.isAlphanumeric c = true ∨ c = '_' ∨ c = '-' ∨ c = '.' := by
  simp only [planFile_eq, String.toList_append, List.mem_append, keptPart, String.toList_ofList,
    List.mem_cons] at h
  rcases h with (h | rfl | h) | h
  · obtain ⟨d, -, rfl⟩ := List.mem_map.mp (List.mem_of_mem_take h)
    rcases fileChar_eq_or d with hd | hd | ⟨hd, halpha⟩
    · exact .inr (.inl hd)
    · exact .inr (.inr (.inl hd))
    · rw [hd]
      exact .inl halpha
  · exact .inr (.inl rfl)
  · have hdigit : Text.hexDigits.all Text.isAlphanumeric = true := by decide
    have hmem := Text.mem_hexDigits_of_mem_digest (List.mem_of_mem_take h)
    exact .inl (List.all_eq_true.mp hdigit c hmem)
  · have hending : ".json".toList.all (fun d => Text.isAlphanumeric d || d == '.') = true := by
      decide
    have hc := List.all_eq_true.mp hending c h
    simp only [Bool.or_eq_true, beq_iff_eq] at hc
    rcases hc with halpha | rfl
    · exact .inl halpha
    · exact .inr (.inr (.inr rfl))

/-- The name of a file is what is kept of the name of its plan, and 22 bytes. -/
theorem utf8ByteSize_planFile (name : String) :
    (planFile name).utf8ByteSize = (keptPart name).utf8ByteSize + 22 := by
  have hdigit : ∀ c ∈ fileDigits name, c.utf8Size = 1 := by
    have hall : Text.hexDigits.all (·.utf8Size == 1) = true := by decide
    intro c hc
    have hmem := Text.mem_hexDigits_of_mem_digest (List.mem_of_mem_take hc)
    exact beq_iff_eq.mp (List.all_eq_true.mp hall c hmem)
  have hdigits : (String.ofList ('_' :: fileDigits name)).utf8ByteSize = 17 := by
    rw [String.utf8ByteSize_ofList, String.utf8Len_cons, utf8Len_eq_length hdigit,
      length_fileDigits]
    rfl
  have hending : ".json".utf8ByteSize = 5 := by decide
  rw [planFile_eq, String.utf8ByteSize_append, String.utf8ByteSize_append, hdigits, hending]

theorem isComponent_planFile (name : String) : IsComponent (planFile name) := by
  have hsign : ∀ c, Text.isAlphanumeric c = false → c ≠ '_' → c ≠ '-' → c ≠ '.' →
      c ∉ (planFile name).toList := by
    intro c halpha hbar hdash hpoint hc
    rcases mem_toList_planFile hc with h | h | h | h
    · rw [halpha] at h
      cases h
    · exact hbar h
    · exact hdash h
    · exact hpoint h
  have hlong : ∀ other : String, other.utf8ByteSize < 22 → planFile name ≠ other := by
    intro other hother heq
    rw [← heq, utf8ByteSize_planFile] at hother
    omega
  exact
    { no_slash := hsign _ (by decide) (by decide) (by decide) (by decide)
      no_backslash := hsign _ (by decide) (by decide) (by decide) (by decide)
      no_nul := hsign _ (by decide) (by decide) (by decide) (by decide)
      ne_empty := hlong _ (by decide)
      ne_dot := hlong _ (by decide)
      ne_dotdot := hlong _ (by decide) }

/-- What is kept of a name is at most 96 characters, and no more than the name has. -/
theorem utf8ByteSize_keptPart_le {k : Nat} (hpos : 1 ≤ k)
    (h : ∀ c ∈ name.toList, c.utf8Size ≤ k) :
    (keptPart name).utf8ByteSize ≤ k * min 96 name.length := by
  have hchar : ∀ c ∈ (name.toList.map fileChar).take 96, c.utf8Size ≤ k := by
    intro c hc
    obtain ⟨d, hd, rfl⟩ := List.mem_map.mp (List.mem_of_mem_take hc)
    rcases fileChar_eq_or d with hbar | hdash | ⟨hsame, -⟩
    · rw [hbar]
      exact hpos
    · rw [hdash]
      exact hpos
    · rw [hsame]
      exact h d hd
  have hlength : ((name.toList.map fileChar).take 96).length = min 96 name.length := by
    rw [List.length_take, List.length_map, String.length_toList]
  rw [keptPart, String.utf8ByteSize_ofList, ← hlength]
  exact utf8Len_le hchar

theorem utf8Size_le_two {c : Char} (h : c.toNat < 0x800) : c.utf8Size ≤ 2 := by
  have hval : c.val ≤ 0x7ff := by
    rw [UInt32.le_iff_toNat_le]
    exact Nat.le_of_lt_succ h
  rw [Char.utf8Size]
  split
  · decide
  · exact Nat.le_of_eq (if_pos hval)

/-! ## The directory of plans -/

namespace PlanSource

/-- The answer for a plan whose file has a name that is too long. -/
def nameTooLong : Error :=
  .plan (.refused "File name too long (os error 36)")

theorem fileOf_eq (name : String) : fileOf name =
    if (planFile name).utf8ByteSize ≤ 255 then .ok (planFile name) else .error nameTooLong :=
  rfl

/-- Rows are written exactly if the name of the file is not too long. -/
theorem write_directory_eq_ok_iff (name : String) (rows : List String)
    (files : Option (Table String)) :
    ((directory.write name rows).run files).1 = .ok () ↔
      (planFile name).utf8ByteSize ≤ 255 := by
  have hwrite : ((directory.write name rows).run files).1 = (fileOf name).map fun _ => () := by
    simp only [directory]
    cases hfile : fileOf name <;> simp [StateT.run, Except.map]
  rw [hwrite, fileOf_eq]
  split <;> simp_all [Except.map]

/-- The rows of a plan whose file has a name that is too long are not even found missing. -/
theorem read_directory_of_long (h : 255 < (planFile name).utf8ByteSize) (files : Table String) :
    directory.read name (some files) = .error nameTooLong := by
  have hfile : fileOf name = .error nameTooLong := by
    rw [fileOf_eq, if_neg (Nat.not_le.mpr h)]
  simp only [directory, hfile]
  rfl

end PlanSource

/-- The file of every plan lies in the directory of plans.  Its name is at most 255 bytes long,
and the rows of the plan can be written, exactly if what it keeps of the name of the plan is at most
233 bytes long; so it is for names of at most 58 characters, and for names in scripts of at most two
bytes a character.  The rows of other plans can be neither written nor read. -/
theorem planFile_isComponent_and_fits_iff (name : String) :
    IsComponent (planFile name) ∧
      ((planFile name).utf8ByteSize ≤ 255 ↔ (keptPart name).utf8ByteSize ≤ 233) ∧
      (name.length ≤ 58 ∨ (∀ c ∈ name.toList, c.toNat < 0x800) →
        (planFile name).utf8ByteSize ≤ 255) ∧
      (∀ rows files, ((PlanSource.directory.write name rows).run files).1 = .ok () ↔
        (planFile name).utf8ByteSize ≤ 255) ∧
      (255 < (planFile name).utf8ByteSize → ∀ files,
        PlanSource.directory.read name (some files) = .error PlanSource.nameTooLong) := by
  have hsize := utf8ByteSize_planFile name
  refine ⟨isComponent_planFile name, by omega, ?_, PlanSource.write_directory_eq_ok_iff name,
    PlanSource.read_directory_of_long⟩
  rintro (hshort | hscript)
  · have hkept : (keptPart name).utf8ByteSize ≤ 4 * min 96 name.length :=
      utf8ByteSize_keptPart_le (by decide) fun c _ => c.utf8Size_le_four
    omega
  · have hkept : (keptPart name).utf8ByteSize ≤ 2 * min 96 name.length :=
      utf8ByteSize_keptPart_le (by decide) fun c hc => utf8Size_le_two (hscript c hc)
    omega

/-- A plan whose name has 78 characters of three bytes has no file. -/
theorem planFile_isComponent_and_fits_iff_of_ideographs :
    let name := String.ofList (List.replicate 78 '日')
    (planFile name).utf8ByteSize = 256 ∧
      ∀ rows files, ((PlanSource.directory.write name rows).run files).1 ≠ .ok () := by
  intro name
  have hchar : fileChar '日' = '日' := by decide +kernel
  have hkept : (keptPart name).utf8ByteSize = 234 := by
    rw [keptPart, String.toList_ofList, List.map_replicate, hchar, List.take_replicate,
      String.utf8ByteSize_ofList]
    decide
  have hsize : (planFile name).utf8ByteSize = 256 := by
    rw [utf8ByteSize_planFile, hkept]
  obtain ⟨-, hfits, -, hwrite, -⟩ := planFile_isComponent_and_fits_iff name
  refine ⟨hsize, fun rows files hok => ?_⟩
  have hfile := hfits.mp ((hwrite rows files).mp hok)
  omega

end PlaceSearch
