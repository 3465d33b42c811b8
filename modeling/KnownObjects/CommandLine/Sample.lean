import KnownObjects.Heap.Basic

/-!
# The sample objects

A small graph in the shape that a compiler meets around call sites: a site with a mutable target, a method handle and a form that refer to each other through final fields, a method type, and an array of constants.
-/

namespace KnownObjects.CommandLine

structure Sample where
  site : Handle
  handle : Handle
  elements : Handle
deriving DecidableEq

/-- What a compiler asks for: a name for the output, where the object is, and whether its elements are constant. -/
structure SampleLookup where
  name : String
  location : Location
  constant : Bool
deriving DecidableEq

namespace Sample

private def callSite : ClassInfo :=
  ⟨"knot/sample/CallSite", [.ofSignature "target" "Lknot/sample/MethodHandle;"], false⟩

private def methodHandle : ClassInfo :=
  ⟨"knot/sample/MethodHandle",
    [(Field.ofSignature "type" "Lknot/sample/MethodType;").immutable,
      (Field.ofSignature "form" "Lknot/sample/LambdaForm;").immutable,
      (Field.ofSignature "arity" "I").immutable], false⟩

private def methodType : ClassInfo :=
  ⟨"knot/sample/MethodType", [(Field.ofSignature "slots" "I").immutable], false⟩

private def lambdaForm : ClassInfo :=
  ⟨"knot/sample/LambdaForm",
    [(Field.ofSignature "owner" "Lknot/sample/MethodHandle;").immutable,
      .ofSignature "customized" "I"], false⟩

private def objectArray : ClassInfo := ⟨"[Ljava/lang/Object;", [], true⟩

/-- Defines the classes, allocates one object of each and links them. -/
def build (heap : Heap) : Except HeapError (Sample × Heap) := do
  let classes := [callSite, methodHandle, methodType, lambdaForm, objectArray]
  let heap := classes.foldl (fun heap c => (heap.define c).2) heap
  let (site, heap) := heap.instantiate callSite
  let (handle, heap) := heap.instantiate methodHandle
  let (kind, heap) := heap.instantiate methodType
  let (form, heap) := heap.instantiate lambdaForm
  let (elements, heap) := heap.instantiate objectArray
  let heap ← heap.store site "target" (.ref handle)
  let heap ← heap.store handle "type" (.ref kind)
  let heap ← heap.store handle "form" (.ref form)
  let heap ← heap.store handle "arity" (.int 2)
  let heap ← heap.store kind "slots" (.int 3)
  let heap ← heap.store form "owner" (.ref handle)
  let heap ← heap.store form "customized" (.int 0)
  return ({ site, handle, elements }, heap)

/-- The lookups in the order of discovery. -/
def lookups (s : Sample) : List SampleLookup :=
  [⟨"site", .handle s.site, false⟩,
    ⟨"site.target", .field s.site 0, false⟩,
    ⟨"handle.form", .field s.handle 1, false⟩,
    ⟨"handle.type", .field s.handle 0, false⟩,
    ⟨"elements", .handle s.elements, true⟩,
    ⟨"handle", .handle s.handle, false⟩]

end Sample

end KnownObjects.CommandLine
