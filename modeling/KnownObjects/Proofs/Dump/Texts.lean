import Mathlib.Data.List.DropRight
import KnownObjects.Dump.Document
import KnownObjects.Proofs.Dump.Reading

/-!
# How rows and lines read

What a row of a listing and a line of a forest say is spelled out here from literals, digits and the objects on the heap, with none of the functions that print them. Those are proved to print the same. The other pieces of a dump are literals.
-/

namespace KnownObjects

/-! ### Numbers and names -/

def Address.spelling (a : Address) : String := "0x" ++ String.ofList ((Nat.toDigits 16 a.toNat).leftpad 12 '0')

def Index.spelling (i : Index) : String := if i.toNat = 4294967295 then "UNKNOWN" else toString i.toNat

namespace Object

def hashSpelling (o : Object) : String := String.ofList ((Nat.toDigits 16 o.hash.toNat).leftpad 8 ' ')

/-- The name of the class without its package. -/
def classSpelling (o : Object) : String := String.ofList (o.classInfo.name.toList.rtakeWhile (· ≠ '/'))

/-- The fields with signature `I` and their numbers. An array shows none. -/
def numbersSpelling (o : Object) : String :=
  if o.classInfo.isArray then ""
  else String.join <| (o.classInfo.fields.zip o.values).map fun
    | (f, .int n) => if f.signature = "I" then "  " ++ f.name ++ ": " ++ toString n.toInt else ""
    | _ => ""

end Object

theorem Address.text_eq_spelling (a : Address) : a.text = a.spelling := by
  simp only [text, spelling, Text.hexFilled, Text.hex]
  rw [← String.ofList_append]
  rfl

theorem Index.text_eq_spelling (i : Index) : i.text = i.spelling := by
  have hunknown : i.isUnknown = true ↔ i.toNat = 4294967295 := by
    rw [isUnknown, beq_iff_eq]
    exact ⟨fun h => by rw [h]; rfl, fun h => ext_toNat h⟩
  simp only [text, spelling]
  by_cases h : i.toNat = 4294967295
  · rw [if_pos h, if_pos (hunknown.2 h)]
  · rw [if_neg h, if_neg (mt hunknown.1 h)]

namespace Dump

theorem hashText_eq_spelling (o : Object) : hashText o.hash = o.hashSpelling := by
  simp only [hashText, Object.hashSpelling, Text.right, Text.hex, Text.blanks, String.length_ofList]
  rw [← String.ofList_append]
  rfl

/-! ### Rows -/

/-- A text with blanks after it up to a width. -/
def inColumn (width : Nat) (text : String) : String := String.ofList (text.toList.rightpad width ' ')

def rowSpelling (i : Index) (h : Handle) (o : Object) : String :=
  "  " ++ inColumn 6 ("obj" ++ toString i.toNat) ++ "   " ++ inColumn 8 ("h#" ++ toString h.toNat) ++ "   " ++
    inColumn 14 o.address.spelling ++ " " ++ o.hashSpelling ++ "   " ++ o.classInfo.name ++ "\n"

theorem left_eq_inColumn (width : Nat) (text : String) : Text.left width text = inColumn width text := by
  simp only [Text.left, Text.blanks, inColumn, List.rightpad]
  rw [String.ofList_append, String.ofList_toList, String.length_toList]

theorem text_object_eq_spelling (i : Index) (h : Handle) (o : Object) :
    (Row.object i h o.address o.hash o.classInfo.name).text = rowSpelling i h o := by
  have hcolumns : (Row.object i h o.address o.hash o.classInfo.name).text =
      "  " ++ Text.left 6 ("obj" ++ toString i.toNat) ++ "   " ++ Text.left 8 ("h#" ++ toString h.toNat) ++ "   " ++
        Text.left 14 o.address.text ++ " " ++ hashText o.hash ++ "   " ++ o.classInfo.name ++ "\n" := rfl
  rw [hcolumns, left_eq_inColumn, left_eq_inColumn, left_eq_inColumn, Address.text_eq_spelling, hashText_eq_spelling]
  rfl

theorem text_null : Row.null.text = "  obj0                                          NULL\n" := by decide +kernel

theorem headings_eq : headings = "  id       Handle     Address        Hash       Class\n" := by decide +kernel

/-! ### Lines -/

namespace Visit

def spelling (v : Visit) : String :=
  String.ofList (List.replicate (2 * v.depth) ' ') ++ v.label ++ "obj" ++ v.index.spelling

def referenceSpelling (v : Visit) : String := v.spelling ++ "\n"

def expandedSpelling (v : Visit) (o : Object) : String :=
  v.spelling ++ " @ " ++ o.address.spelling ++ " hash " ++ o.hashSpelling ++ " " ++ o.classSpelling ++
    o.numbersSpelling ++ "\n"

theorem text_eq_spelling (v : Visit) : v.text = v.spelling := by
  simp only [text, spelling, Text.blanks]
  rw [Index.text_eq_spelling]

end Visit

theorem text_reference_eq_spelling (v : Visit) : (Line.reference v).text = v.referenceSpelling :=
  congrArg (· ++ "\n") v.text_eq_spelling

theorem join_numbers_eq_spelling (o : Object) : String.join (((shownOf o).filterMap number?).map fun entry =>
    "  " ++ entry.1 ++ ": " ++ toString entry.2.toInt) = o.numbersSpelling := by
  simp only [shownOf, Object.numbersSpelling]
  split
  · rfl
  · induction o.classInfo.fields.zip o.values with
    | nil => rfl
    | cons entry entries ih =>
      rw [List.map_cons, String.join_cons, ← ih]
      obtain ⟨f, v⟩ := entry
      cases v with
      | int n =>
        by_cases hsignature : f.signature = "I"
        · rw [List.filterMap_cons_some (b := (f.name, n)) (by simp [number?, hsignature]), List.map_cons, String.join_cons]
          simp only [if_pos hsignature]
        · rw [List.filterMap_cons_none (by simp [number?, hsignature])]
          simp only [if_neg hsignature, String.empty_append]
      | long n =>
        rw [List.filterMap_cons_none rfl]
        simp only [String.empty_append]
      | ref a =>
        rw [List.filterMap_cons_none rfl]
        simp only [String.empty_append]

theorem text_expanded_eq_spelling (objects : List Object) (v : Visit) (o : Object) :
    (Line.expanded v (nodeOf objects o)).text = v.expandedSpelling o := by
  have hpieces : (Line.expanded v (nodeOf objects o)).text =
      v.text ++ " @ " ++ o.address.text ++ " hash " ++ hashText o.hash ++ " " ++ o.classSpelling ++
        String.join (((shownOf o).filterMap number?).map fun entry => "  " ++ entry.1 ++ ": " ++ toString entry.2.toInt) ++
        "\n" := rfl
  rw [hpieces, v.text_eq_spelling, Address.text_eq_spelling, hashText_eq_spelling, join_numbers_eq_spelling]
  rfl

/-! ### What is printed of a document -/

def Event.text? : Event → Option String
  | text piece => some piece
  | log _ => none

/-- Without a limit everything is printed. -/
theorem printAll_eq (events : List Event) :
    (printAll events).text = String.join (events.filterMap Event.text?) ∧ (printAll events).failed = false := by
  induction events with
  | nil => exact ⟨rfl, rfl⟩
  | cons event events ih =>
    cases event with
    | text piece =>
      rw [List.filterMap_cons_some (show Event.text? (.text piece) = some piece from rfl), String.join_cons, ← ih.1]
      exact ⟨rfl, ih.2⟩
    | log record => exact ih

theorem filterMap_text?_map {α : Type} (f : α → String) (l : List α) :
    (l.map fun x => Event.text (f x)).filterMap Event.text? = l.map f := by
  rw [List.filterMap_map]
  exact congrFun (List.filterMap_eq_map (f := f)) l

theorem text_listing (bound : Index) (rows : List Row) (ending : Ending) :
    ((Document.listing bound rows ending).print none).text = "<knownObjectTable size=\"" ++ bound.spelling ++ "\">\n" ++
      "  id       Handle     Address        Hash       Class\n" ++ String.join (rows.map Row.text) ++
        (printAll ending.events).text := by
  show (printAll (Document.listing bound rows ending).events).text = _
  rw [(printAll_eq _).1, (printAll_eq ending.events).1, ← bound.text_eq_spelling, ← headings_eq]
  have hquoted : "<knownObjectTable size=" ++ Text.quoted bound.text ++ ">\n" =
      "<knownObjectTable size=\"" ++ bound.text ++ "\">\n" := by
    simp only [Text.quoted, String.append_assoc]
    rfl
  rw [← hquoted]
  simp only [Document.events, List.filterMap_append, filterMap_text?_map, String.join_append]
  rfl

theorem text_held (bound : Index) : ((Document.noAccess bound).print none).text =
    "<knownObjectTable size=\"" ++ bound.spelling ++ "\"/> // unable to acquire heap access to print table contents\n" := by
  rw [← bound.text_eq_spelling]
  show "<knownObjectTable size=" ++ Text.quoted bound.text ++ "/> // " ++
    "unable to acquire heap access to print table contents" ++ "\n" ++ "" = _
  simp only [Text.quoted, String.append_assoc]
  rfl

theorem text_cut (h : Handle) : (printAll (Ending.cut (.invalidHandle h)).events).text =
    "// known object dump incomplete: handle h#" ++ toString h.toNat ++ " does not exist\n" := by
  show "// known object dump incomplete: " ++ ("handle " ++ ("h#" ++ toString h.toNat) ++ " does not exist") ++ "\n" ++ "" = _
  simp only [String.append_assoc]
  rfl

theorem text_listingOnly : (printAll Ending.listingOnly.events).text = "</knownObjectTable>\n" := rfl

theorem text_forest (marked known : Nat) (lines : List Line) : (printAll (Ending.forest marked known lines).events).text =
    "</knownObjectTable>\n<knownObjectGraph>\n" ++ String.join (lines.map Line.text) ++ "</knownObjectGraph>\n" := by
  rw [(printAll_eq _).1]
  simp only [Ending.events, List.filterMap_append, filterMap_text?_map, String.join_append]
  rfl

end Dump

namespace Site

open Dump

/-- What a line of a forest says. -/
inductive Reads (s : Site) : Line → String → Prop
  | reference (v : Visit) : Reads s (.reference v) v.referenceSpelling
  | expanded {v : Visit} {n : Node} {o : Object} : s.Known v.index o → Reads s (.expanded v n) (v.expandedSpelling o)

end Site

end KnownObjects
