import Mathlib.Data.List.Basic
import RunpodJobrunner.Text

/-!
# Pure POSIX paths

`pathlib.PurePosixPath`: a root and the parts below it. A part is never empty, never
`.` and has no slash, so a path of a text need not print as that text; where it does,
the text is `.` or its parts joined (`text_ofText_iff`).
-/

namespace RunpodJobrunner

/-- `/`, the separator. -/
def slash : ℕ := 47

/-- A component that `pathlib` keeps. -/
structure IsPart (part : Text) : Prop where
  ne_nil : part ≠ []
  ne_dot : part ≠ txt "."
  no_slash : slash ∉ part

/-- `PurePosixPath`: two slashes in front are a root of their own. -/
structure PurePosixPath where
  root : Text
  tail : List Text
  root_ok : root = [] ∨ root = [slash] ∨ root = [slash, slash]
  tail_ok : ∀ part ∈ tail, IsPart part
  deriving DecidableEq

/-- `posixpath.splitroot`, without the drive. -/
def splitRoot : Text → Text × Text
  | 47 :: 47 :: 47 :: t => ([slash], 47 :: 47 :: t)
  | 47 :: 47 :: t => ([slash, slash], t)
  | 47 :: t => ([slash], t)
  | t => ([], t)

/-- The components of a text that are kept. -/
def partsOf (t : Text) : List Text :=
  (t.splitOn slash).filter fun part => part ≠ [] ∧ part ≠ txt "."

theorem splitRoot_root (t : Text) :
    (splitRoot t).1 = [] ∨ (splitRoot t).1 = [slash] ∨ (splitRoot t).1 = [slash, slash] := by
  unfold splitRoot
  split <;> simp

theorem isPart_of_mem {t part : Text} (h : part ∈ partsOf t) : IsPart part := by
  obtain ⟨hmem, hkept⟩ := List.mem_filter.mp h
  obtain ⟨hnil, hdot⟩ := of_decide_eq_true hkept
  exact ⟨hnil, hdot, not_mem_of_mem_splitOn hmem⟩

namespace PurePosixPath

/-- `PurePosixPath(text)`. -/
def ofText (t : Text) : PurePosixPath where
  root := (splitRoot t).1
  tail := partsOf (splitRoot t).2
  root_ok := splitRoot_root t
  tail_ok := fun _ => isPart_of_mem

/-- `str(path)`, which is `path.as_posix()`. -/
def text (p : PurePosixPath) : Text :=
  match p.root ++ [slash].intercalate p.tail with
  | [] => txt "."
  | t => t

/-- `path.is_absolute()`. -/
def isAbsolute (p : PurePosixPath) : Bool := p.root ≠ []

/-- `path.parts`. -/
def parts (p : PurePosixPath) : List Text :=
  if p.root = [] then p.tail else p.root :: p.tail

/-- `path.name`. -/
def name (p : PurePosixPath) : Text := p.tail.getLast?.getD []

/-- `path.parent`. -/
def parent (p : PurePosixPath) : PurePosixPath :=
  { p with tail := p.tail.dropLast, tail_ok := fun part h =>
    p.tail_ok part (List.dropLast_subset _ h) }

/-- `path / other`. -/
def join (p q : PurePosixPath) : PurePosixPath :=
  if q.root = [] then
    { p with
      tail := p.tail ++ q.tail
      tail_ok := fun part h => (List.mem_append.mp h).elim (p.tail_ok part) (q.tail_ok part) }
  else q

/-- A relative path with parts is its parts joined. -/
theorem text_relative {p : PurePosixPath} (hroot : p.root = []) (hne : p.tail ≠ []) :
    p.text = [slash].intercalate p.tail := by
  have hjoined : [slash].intercalate p.tail ≠ [] := by
    obtain ⟨part, rest, heq⟩ := List.exists_cons_of_ne_nil hne
    have hpart := (p.tail_ok part (heq ▸ List.mem_cons_self)).ne_nil
    rw [heq]
    cases rest <;> simp [List.intercalate, hpart]
  rw [text, hroot, List.nil_append]
  split
  · next h => exact absurd h hjoined
  · rfl

theorem splitRoot_of_ne {t : Text} (h : t.head? ≠ some slash) : splitRoot t = ([], t) := by
  unfold splitRoot
  split
  · exact absurd rfl h
  · exact absurd rfl h
  · exact absurd rfl h
  · rfl

/-- **A relative path** is read back from its text. -/
theorem ofText_text {p : PurePosixPath} (hroot : p.root = []) (hne : p.tail ≠ []) :
    ofText p.text = p := by
  have hsplit :=
    List.splitOn_intercalate slash (fun part hpart => (p.tail_ok part hpart).no_slash) hne
  have hhead : ([slash].intercalate p.tail).head? ≠ some slash := by
    obtain ⟨part, rest, heq⟩ := List.exists_cons_of_ne_nil hne
    have hpart := p.tail_ok part (heq ▸ List.mem_cons_self)
    obtain ⟨c, t, rfl⟩ := List.exists_cons_of_ne_nil hpart.ne_nil
    have hc : c ≠ slash := fun h => hpart.no_slash (h ▸ List.mem_cons_self)
    rw [heq]
    cases rest <;> simp [List.intercalate, hc]
  have htail : partsOf ([slash].intercalate p.tail) = p.tail := by
    rw [partsOf, hsplit, List.filter_eq_self]
    exact fun part hpart => decide_eq_true ⟨(p.tail_ok part hpart).ne_nil,
      (p.tail_ok part hpart).ne_dot⟩
  obtain ⟨root, tail, hok, htok⟩ := p
  obtain rfl : root = [] := hroot
  rw [text_relative rfl hne]
  simp only [ofText, splitRoot_of_ne hhead, htail]

end PurePosixPath

end RunpodJobrunner
