import ScopedLisp.Heap.Binding
import ScopedLisp.Proofs.Heap.Omission

/-!
# ScopedLisp.Proofs.Heap.History

Frames remember what was written to them.  A `FrameOp` is one of the things that a host does with frames:
to make a root or a frame inside another, and to define, bind or update names.  A `History` keeps, without
any heap, the parents of the frames that were made and all writes in their order.

`Heap.Records` says that a heap holds what a history says, and nothing else: each name has the value that
was written to it last, and the names of a frame stand in the order of their first writing.  Every
operation keeps it (`Heap.Records.run`), so a heap that was built by operations can be asked instead of its
history (`Heap.Records.refines`).

A name that is no symbol is refused.  The error shows the name, so it is another error where the name
cannot be written.
-/

namespace ScopedLisp

/-! ## Operations -/

/-- A mapping from names to values: no two names are equal, and none can still be changed. -/
structure Mapping where
  entries : List (Value × Value)
  distinct : entries.Pairwise fun e e' => e.1.equal e'.1 = false
  fixed : ∀ entry ∈ entries, entry.1.isChangeable = false

/-- What a host does with frames.  Names come as values. -/
inductive FrameOp where
  | new
  | fork (outer : FrameId)
  | define (f : FrameId) (name value : Value)
  | bind (f : FrameId) (name value : Value)
  | update (f : FrameId) (mapping : Mapping)

namespace FrameOp

/-- The parents of the frames that an operation makes. -/
def made : FrameOp → List (Option FrameId)
  | .new => [none]
  | .fork outer => [some outer]
  | _ => []

/-- The frame that an operation writes. -/
def target? : FrameOp → Option FrameId
  | .new | .fork _ => none
  | .define f _ _ | .bind f _ _ | .update f _ => some f

/-- What an operation is to write, under names that may be refused. -/
def entries : FrameOp → List (Value × Value)
  | .new | .fork _ => []
  | .define _ name value | .bind _ name value => [(name, value)]
  | .update _ mapping => mapping.entries

/-- What an operation does with a name, in the words of its error. -/
def verb : FrameOp → String
  | .bind .. => "bind"
  | _ => "define"

/-- The frames that an operation mentions are among the first `count`. -/
def Fits (count : Nat) : FrameOp → Prop
  | .new => True
  | .fork f | .define f _ _ | .bind f _ _ | .update f _ => f < count

/-- Each operation of a row mentions frames that are there by then. -/
def RowFits : (count : Nat) → List FrameOp → Prop
  | _, [] => True
  | count, op :: ops => op.Fits count ∧ RowFits (count + op.made.length) ops

/-- A heap after it was changed, or as it is with the error that there was. -/
def keep (heap : Heap) : Except EvalError Heap → Option EvalError × Heap
  | .ok after => (none, after)
  | .error error => (some error, heap)

/-- One operation: the error that it raises, if any, and the heap that it leaves. -/
def run (heap : Heap) : FrameOp → Option EvalError × Heap
  | .new => (none, (heap.newFrame none []).2)
  | .fork outer => (none, (heap.newFrame (some outer) []).2)
  | .define f name value => keep heap (heap.define f name value)
  | .bind f name value => keep heap (heap.bind f name value)
  | .update f mapping => heap.update f mapping.entries

/-- The heap that a row of operations leaves. -/
def runAll (heap : Heap) (ops : List FrameOp) : Heap :=
  ops.foldl (fun heap op => (op.run heap).2) heap

/-- The entries before the first whose name is no symbol. -/
def accepted : List (Value × Value) → List (String × Value)
  | (.symbol name, value) :: rest => (name, value) :: accepted rest
  | _ => []

/-- The first name that is no symbol. -/
def refused? : List (Value × Value) → Option Value
  | [] => none
  | (.symbol _, _) :: rest => refused? rest
  | (name, _) :: _ => some name

/-- The error of a refused name: that it is no symbol, or that the name cannot be written. -/
def refusal (heap : Heap) (verb : String) (name : Value) : EvalError :=
  match name.plain? heap with
  | .ok shown => .unbindable verb shown
  | .error error => error

end FrameOp

/-! ## Histories -/

/-- What was done with frames: the parents of those that were made, and all writes, the first ones
first. -/
structure History where
  outers : List (Option FrameId)
  writes : List (FrameId × String × Value)

namespace History

/-- A history goes on with an operation: with its frame, and with the entries that it does not refuse. -/
def record (history : History) (op : FrameOp) : History where
  outers := history.outers ++ op.made
  writes := history.writes ++
    op.target?.toList.flatMap fun f => (FrameOp.accepted op.entries).map (f, ·)

/-- The history of a row of operations. -/
def ofOps (ops : List FrameOp) : History := ops.foldl record ⟨[], []⟩

/-- What was written to a frame. -/
def writesTo (history : History) (f : FrameId) : List (String × Value) :=
  (history.writes.filter (·.1 = f)).map (·.2)

/-- The value that was written last to a name in a frame. -/
def last? (history : History) (f : FrameId) (name : String) : Option Value :=
  (history.writesTo f).reverse.lookup name

/-- The names that were written to in a frame, in the order of their first writing. -/
def names (history : History) (f : FrameId) : List String :=
  ((history.writesTo f).map (·.1)).eraseDups

/-- The frames from one to a root, each made inside the next. -/
inductive Outward (history : History) : FrameId → List FrameId → Prop where
  | root {f : FrameId} : history.outers[f]? = some none → Outward history f [f]
  | outward {f outer : FrameId} {frames : List FrameId} : history.outers[f]? = some (some outer) →
      Outward history outer frames → Outward history f (f :: frames)

/-- The first of some frames in which a name was ever written to. -/
def find? (history : History) (frames : List FrameId) (name : String) : Option FrameId :=
  frames.find? fun f => decide (name ∈ history.names f)

/-- The value that was written last to a name, in the first of some frames in which it was ever written
to. -/
def lookup (history : History) (frames : List FrameId) (name : String) : Except EvalError Value :=
  match (history.find? frames name).bind (history.last? · name) with
  | none => .error (.unbound name)
  | some .unassigned => .error (.unassigned name)
  | some value => .ok value

end History

/-! ## Entries -/

namespace Heap

variable {heap : Heap} {f g : FrameId}

/-- Write entry after entry. -/
def writeEach (heap : Heap) (f : FrameId) (entries : List (String × Value)) : Heap :=
  entries.foldl (fun heap entry => heap.write f entry.1 entry.2) heap

theorem getElem?_frames_writeEach (ne : g ≠ f) (entries : List (String × Value)) :
    (heap.writeEach f entries).frames[g]? = heap.frames[g]? := by
  induction entries generalizing heap with
  | nil => rfl
  | cons entry entries ih => exact ih.trans (getElem?_frames_write ne entry.1 entry.2)

end Heap

/-- The plain form of a value depends on the procedures of the heap alone. -/
theorem Value.plain?_congr {heap heap' : Heap} (same : heap.procedures = heap'.procedures) (v : Value) :
    v.plain? heap = v.plain? heap' := by
  simp only [plain?, Heap.closure?, Heap.procedure?_congr same, inspect?_congr same, Closure.source?,
    source?]

namespace FrameOp

variable {heap heap' : Heap} {f : FrameId}

theorem refusal_congr (same : heap.procedures = heap'.procedures) (verb : String) :
    refusal heap verb = refusal heap' verb := by
  funext name
  rw [refusal, refusal, Value.plain?_congr same]

/-- A name that is no symbol is refused. -/
theorem nameOf_of_refused {verb : String} {name : Value} (value : Value)
    (h : refused? [(name, value)] = some name) :
    heap.nameOf verb name = .error (refusal heap verb name) := by
  have shows : heap.nameOf verb name =
      (name.plain? heap).bind fun shown => .error (.unbindable verb shown) := by
    cases name with
    | symbol name => cases h
    | _ => rfl
  rw [shows, refusal]
  cases name.plain? heap <;> rfl

/-- One entry is written, or refused. -/
theorem keep_nameOf (heap : Heap) (f : FrameId) (verb : String) (name value : Value) :
    keep heap ((heap.nameOf verb name).map fun name => heap.write f name value) =
      ((refused? [(name, value)]).map (refusal heap verb),
        heap.writeEach f (accepted [(name, value)])) := by
  cases name with
  | symbol name => rfl
  | _ =>
      rw [nameOf_of_refused value rfl]
      rfl

/-- Entries are written up to the first that is refused. -/
theorem defineEach_eq (heap : Heap) (f : FrameId) (entries : List (Value × Value)) :
    heap.defineEach f entries = ((refused? entries).map (refusal heap "define"),
      heap.writeEach f (accepted entries)) := by
  induction entries generalizing heap with
  | nil => rfl
  | cons entry entries ih =>
      obtain ⟨name, value⟩ := entry
      cases name with
      | symbol name =>
          have same : (heap.write f name value).procedures = heap.procedures := rfl
          have unchanged := refusal_congr same "define"
          have rest := ih (heap.write f name value)
          rw [unchanged] at rest
          exact rest
      | _ =>
          simp only [Heap.defineEach, Heap.define]
          rw [nameOf_of_refused value rfl]
          rfl

end FrameOp

namespace Mapping

open Heap

/-- An entry under a new name comes last. -/
theorem insertEntry_of_new {name value : Value} {entries : List (Value × Value)}
    (new : ∀ entry ∈ entries, entry.1.equal name = false) :
    insertEntry name value entries = entries ++ [(name, value)] := by
  induction entries with
  | nil => rfl
  | cons entry entries ih =>
      obtain ⟨first, rest⟩ := List.forall_mem_cons.mp new
      simp only [insertEntry, first, Bool.false_eq_true, if_false, ih rest, List.cons_append]

/-- Of distinct entries none is put in the place of another. -/
theorem foldl_insertEntry (before : List (Value × Value)) {entries : List (Value × Value)}
    (distinct : (before ++ entries).Pairwise fun e e' => e.1.equal e'.1 = false) :
    entries.foldl (fun mapping entry => insertEntry entry.1 entry.2 mapping) before =
      before ++ entries := by
  induction entries generalizing before with
  | nil => rw [List.append_nil]; rfl
  | cons entry entries ih =>
      have new : ∀ other ∈ before, other.1.equal entry.1 = false := fun other mem =>
        (List.pairwise_append.mp distinct).2.2 other mem entry List.mem_cons_self
      rw [List.append_cons] at distinct ⊢
      rw [List.foldl_cons, insertEntry_of_new new]
      exact ih _ distinct

/-- To update with a mapping is to define its entries. -/
theorem update_eq (heap : Heap) (f : FrameId) (mapping : Mapping) :
    heap.update f mapping.entries = heap.defineEach f mapping.entries := by
  have fixed : mapping.entries.any (·.1.isChangeable) = false := by
    rw [List.any_eq_false]
    intro entry mem
    rw [mapping.fixed entry mem]
    exact Bool.false_ne_true
  have same := foldl_insertEntry [] mapping.distinct
  rw [List.nil_append] at same
  rw [update, if_neg (by rw [fixed]; exact Bool.false_ne_true), same]

end Mapping

namespace FrameOp

variable {f : FrameId} {op : FrameOp}

/-- An operation on a frame writes the entries before the first that is refused. -/
theorem run_eq_of_target (heap : Heap) (h : op.target? = some f) : op.run heap =
    ((refused? op.entries).map (refusal heap op.verb), heap.writeEach f (accepted op.entries)) := by
  cases op with
  | new | fork => cases h
  | define =>
      cases h
      exact keep_nameOf ..
  | bind =>
      cases h
      exact keep_nameOf ..
  | update f mapping =>
      cases h
      exact (mapping.update_eq heap f).trans (defineEach_eq heap f _)

end FrameOp

/-! ## Heaps that hold what a history says -/

/-- The heap has the frames of the history, with what was written to them. -/
structure Heap.Records (heap : Heap) (history : History) : Prop where
  frames : heap.frames.size = history.outers.length
  outer (f : FrameId) : heap.parent? f = history.outers[f]?.join
  older {f outer : FrameId} : heap.parent? f = some outer → outer < f
  value (f : FrameId) (name : String) : heap.get? f name = history.last? f name
  names (f : FrameId) : heap.names f = history.names f

namespace History

variable {history : History} {f g : FrameId}

/-- A history with one more write. -/
def write (history : History) (f : FrameId) (name : String) (value : Value) : History where
  outers := history.outers
  writes := history.writes ++ [(f, name, value)]

theorem writesTo_write (history : History) (f g : FrameId) (name : String) (value : Value) :
    (history.write f name value).writesTo g =
      history.writesTo g ++ if f = g then [(name, value)] else [] := by
  by_cases same : f = g <;> simp [writesTo, write, same]

/-- The last write is the last one to its name, and to no other. -/
theorem last?_write (history : History) (f g : FrameId) (name other : String) (value : Value) :
    (history.write f name value).last? g other =
      if f = g ∧ other = name then some value else history.last? g other := by
  rw [last?, writesTo_write]
  by_cases same : f = g
  · by_cases eq : other = name
    · simp [same, eq]
    · have ne : (other == name) = false := beq_false_of_ne eq
      simp [last?, same, eq, List.lookup_cons, ne]
  · simp [last?, same]

theorem mem_names {name : String} : name ∈ history.names f ↔ name ∈ (history.writesTo f).map (·.1) :=
  List.mem_eraseDups

/-- A name that is new comes last. -/
theorem names_write (history : History) (f g : FrameId) (name : String) (value : Value) :
    (history.write f name value).names g =
      if f = g ∧ name ∉ history.names g then history.names g ++ [name] else history.names g := by
  simp only [mem_names]
  rw [names, writesTo_write]
  by_cases same : f = g
  · subst same
    by_cases old : name ∈ (history.writesTo f).map (·.1) <;>
      simp [names, List.eraseDups_append, List.removeAll, List.eraseDups_cons, old]
  · simp [names, same]

end History

namespace Heap

variable {heap : Heap} {history : History} {f g : FrameId}

theorem names_write (heap : Heap) (lt : f < heap.frames.size) (g : FrameId) (name : String)
    (value : Value) : (heap.write f name value).names g =
      if f = g ∧ name ∉ heap.names g then heap.names g ++ [name] else heap.names g := by
  by_cases same : f = g
  · subst same
    have there := Array.getElem?_eq_getElem lt
    have written : (heap.write f name value).frames[f]? = some (heap.frames[f].set name value) := by
      simp [write, Array.getElem?_modify, there]
    rw [names_of_getElem? written, names_of_getElem? there, Frame.names_set]
    by_cases old : name ∈ heap.frames[f].names <;> simp [old]
  · rw [names_congr (getElem?_frames_write (Ne.symm same) name value)]
    simp [same]

namespace Records

/-- A heap without frames records that nothing was done. -/
theorem start (procedures : Array Procedure) : Records ⟨#[], procedures⟩ (.ofOps []) where
  frames := rfl
  outer _ := rfl
  older h := by cases h
  value _ _ := rfl
  names _ := rfl

/-- To write to a frame is to record the write. -/
theorem write (records : heap.Records history) (lt : f < heap.frames.size) (name : String)
    (value : Value) : (heap.write f name value).Records (history.write f name value) where
  frames := (size_frames_write ..).trans records.frames
  outer g := (parent?_write ..).trans (records.outer g)
  older h := records.older (by rwa [parent?_write] at h)
  value g other := by
    rw [get?_write, History.last?_write, records.value]
    by_cases same : f = g
    · subst same
      simp [lt]
    · simp [same]
  names g := by rw [names_write heap lt, History.names_write, records.names]

theorem writeEach (records : heap.Records history) (lt : f < heap.frames.size)
    (entries : List (String × Value)) : (heap.writeEach f entries).Records
      ⟨history.outers, history.writes ++ entries.map (f, ·)⟩ := by
  induction entries generalizing heap history with
  | nil =>
      rw [List.map_nil, List.append_nil]
      exact records
  | cons entry entries ih =>
      have lt' : f < (heap.write f entry.1 entry.2).frames.size := by rwa [size_frames_write]
      have rest := ih (records.write lt entry.1 entry.2) lt'
      rw [List.map_cons, List.append_cons]
      exact rest

/-- To make a frame is to record its parent. -/
theorem newFrame (records : heap.Records history) (parent : Option FrameId)
    (older : ∀ outer ∈ parent, outer < heap.frames.size) : (heap.newFrame parent []).2.Records
      ⟨history.outers ++ [parent], history.writes⟩ where
  frames := by simp [Heap.newFrame, records.frames]
  outer g := by
    rw [parent?_newFrame, records.outer, records.frames]
    by_cases same : g = history.outers.length
    · simp [same]
    · rw [if_neg same, List.getElem?_append]
      split
      · rfl
      next beyond =>
        have out : history.outers.length < g :=
          Nat.lt_of_le_of_ne (Nat.le_of_not_lt beyond) (Ne.symm same)
        simp [Nat.le_of_lt out, Nat.sub_ne_zero_of_lt out]
  older h := by
    rw [parent?_newFrame] at h
    split at h
    next same =>
      rw [same]
      exact older _ h
    · exact records.older h
  value g name := by
    rw [get?_newFrame]
    split
    next same =>
      have none : heap.get? g name = none := by
        simp [Heap.get?, same]
      exact none.symm.trans (records.value g name)
    · exact records.value g name
  names g := by
    refine Eq.trans ?_ (records.names g)
    by_cases same : g = heap.frames.size <;>
      simp [Heap.names, slots, Heap.newFrame, Array.getElem?_push, same]

/-- **Step**: an operation does what its record says. -/
theorem run (records : heap.Records history) {op : FrameOp} (fits : op.Fits heap.frames.size) :
    (op.run heap).2.Records (history.record op) := by
  have written : ∀ f, op.target? = some f → f < heap.frames.size → op.made = [] →
      (op.run heap).2.Records (history.record op) := by
    intro f target lt made
    rw [FrameOp.run_eq_of_target heap target]
    have after := records.writeEach lt (FrameOp.accepted op.entries)
    simpa only [History.record, target, made, Option.toList_some, List.flatMap_cons, List.flatMap_nil,
      List.append_nil] using after
  cases op with
  | new =>
      have after := records.newFrame none nofun
      rwa [← List.append_nil history.writes] at after
  | fork outer =>
      have after := records.newFrame (some outer) fun _ h => Option.some.inj h ▸ fits
      rwa [← List.append_nil history.writes] at after
  | define f => exact written f rfl fits rfl
  | bind f => exact written f rfl fits rfl
  | update f => exact written f rfl fits rfl

/-- **Run**: a row of operations does what its history says. -/
theorem runAll (records : heap.Records history) {ops : List FrameOp}
    (fits : FrameOp.RowFits heap.frames.size ops) :
    (FrameOp.runAll heap ops).Records (ops.foldl History.record history) := by
  induction ops generalizing heap history with
  | nil => exact records
  | cons op ops ih =>
      have after := records.run fits.1
      have count : (op.run heap).2.frames.size = heap.frames.size + op.made.length := by
        rw [after.frames, records.frames, History.record, List.length_append]
      exact ih after (by rw [count]; exact fits.2)

/-- The chain of a frame is the way outward in the history. -/
theorem outward_chainWithin (records : heap.Records history) {fuel : Nat} (enough : f < fuel)
    (lt : f < heap.frames.size) : history.Outward f (heap.chainWithin fuel f) := by
  induction fuel generalizing f with
  | zero => exact absurd enough (Nat.not_lt_zero f)
  | succ fuel ih =>
      rw [chainWithin_succ lt]
      have there : f < history.outers.length := by rwa [← records.frames]
      have outer := records.outer f
      rw [List.getElem?_eq_getElem there, Option.join_some] at outer
      cases hp : heap.parent? f with
      | none => exact .root (by rw [List.getElem?_eq_getElem there, ← outer, hp])
      | some parent =>
          have older := records.older hp
          have rest := ih (Nat.lt_of_lt_of_le older (Nat.le_of_lt_succ enough)) (Nat.lt_trans older lt)
          exact .outward (by rw [List.getElem?_eq_getElem there, ← outer, hp]) rest

/-- The way outward in the history is the walk outward in the heap. -/
theorem walk (records : heap.Records history) {frames : List FrameId} (outward : history.Outward f frames) :
    heap.Walk f frames := by
  induction outward with
  | @root f outermost =>
      have lt : f < heap.frames.size := by
        rw [records.frames]
        exact (List.getElem?_eq_some_iff.mp outermost).1
      exact .root lt (by rw [records.outer, outermost]; rfl)
  | outward inside _ ih => exact .outward (by rw [records.outer, inside]; rfl) ih

theorem holds_eq (records : heap.Records history) (f : FrameId) (name : String) :
    heap.holds f name = decide (name ∈ history.names f) := by
  rw [Bool.eq_iff_iff, holds_iff_mem_names, records.names, decide_eq_true_iff]

theorem find?_eq (records : heap.Records history) (f : FrameId) (name : String) :
    heap.find? f name = history.find? (heap.chain f) name := by
  simp only [Heap.find?_eq_chain_find?, History.find?, records.holds_eq]

end Records

end Heap

/-! ## Frames and operations as their histories have them -/

/-- What a frame answers is what its history says: its chain is the way outward and ends in its root, its
names stand in the order of their first writing, and a name is found, or looked up, where it was written to
first on that way. -/
structure Heap.Refines (heap : Heap) (history : History) (f : FrameId) : Prop where
  outward : history.Outward f (heap.chain f)
  root : (heap.chain f).getLast? = some (heap.root f)
  depth : heap.depth f = (heap.chain f).length
  names : heap.names f = history.names f
  holds (name : String) : heap.holds f name = decide (name ∈ history.names f)
  find? (name : String) : heap.find? f name = history.find? (heap.chain f) name
  lookup (name : String) : heap.lookup f name = history.lookup (heap.chain f) name
  unbound (name : String) (error : EvalError) :
    heap.lookup f name = .error error → error.kind = "UnboundVariable"

/-- An entry under a symbol. -/
def FrameOp.named (entry : String × Value) : Value × Value := (.symbol entry.1, entry.2)

/-- What an operation does: nothing to any other frame, and in its own it writes entry after entry up to the
first name that is no symbol.  That name is refused. -/
structure FrameOp.Obeyed (heap : Heap) (op : FrameOp) : Prop where
  others {g : FrameId} : g < heap.frames.size → op.target? ≠ some g →
    (op.run heap).2.frames[g]? = heap.frames[g]?
  made : op.target? = none → (op.run heap).1 = none
  accepted {f : FrameId} {entries : List (String × Value)} : op.target? = some f →
    op.entries = entries.map named → op.run heap = (none, heap.writeEach f entries)
  refused {f : FrameId} (before : List (String × Value)) {name value : Value}
    {after : List (Value × Value)} : op.target? = some f →
    op.entries = before.map named ++ (name, value) :: after → (∀ text, name ≠ .symbol text) →
    ∃ error, op.run heap = (some error, heap.writeEach f before) ∧
      (∀ shown, name.plain? heap = .ok shown →
        error = .unbindable op.verb shown ∧ error.kind = "InvalidBindingForm") ∧
      ∀ failure, name.plain? heap = .error failure → error = failure

/-- A heap answers what its history says. -/
theorem Heap.Records.refines {heap : Heap} {history : History} (records : heap.Records history)
    {f : FrameId} (lt : f < heap.frames.size) : heap.Refines history f where
  outward := records.outward_chainWithin (Nat.lt_succ_self f) lt
  root := (records.walk (records.outward_chainWithin (Nat.lt_succ_self f) lt)).getLast?_chain
  depth := heap.depth_eq_chain_length f
  names := records.names f
  holds name := records.holds_eq f name
  find? name := records.find?_eq f name
  lookup name := by
    simp only [Heap.lookup, records.find?_eq, records.value]
    rfl
  unbound name error h := by
    unfold Heap.lookup at h
    split at h <;> cases h <;> rfl

namespace FrameOp

variable {op : FrameOp} {f : FrameId}

theorem accepted_append (before : List (String × Value)) (rest : List (Value × Value)) :
    accepted (before.map named ++ rest) = before ++ accepted rest := by
  induction before with
  | nil => rfl
  | cons entry before ih => exact congrArg (entry :: ·) ih

theorem refused?_append (before : List (String × Value)) (rest : List (Value × Value)) :
    refused? (before.map named ++ rest) = refused? rest := by
  induction before with
  | nil => rfl
  | cons entry before ih => exact ih

theorem obeyed (heap : Heap) (op : FrameOp) : op.Obeyed heap where
  others {g} lt other := by
    cases target : op.target? with
    | some f =>
        have ne : g ≠ f := by
          rintro rfl
          exact other target
        rw [run_eq_of_target heap target]
        exact Heap.getElem?_frames_writeEach ne _
    | none =>
        cases op with
        | new | fork => exact Heap.getElem?_frames_newFrame lt _ _
        | _ => cases target
  made h := by
    cases op with
    | new | fork => rfl
    | _ => cases h
  accepted {f entries} target eq := by
    have all := accepted_append entries []
    have none := refused?_append entries []
    rw [List.append_nil] at all none
    rw [run_eq_of_target heap target, eq, all, none]
    simp [accepted, refused?]
  refused {f} before {name value after} target eq other := by
    have bad : refused? ((name, value) :: after) = some name ∧
        accepted ((name, value) :: after) = [] := by
      cases name with
      | symbol text => exact absurd rfl (other text)
      | _ => exact ⟨rfl, rfl⟩
    refine ⟨refusal heap op.verb name, ?_, ?_, ?_⟩
    · rw [run_eq_of_target heap target, eq, accepted_append, refused?_append, bad.1, bad.2,
        List.append_nil]
      rfl
    · intro shown h
      rw [refusal, h]
      exact ⟨rfl, rfl⟩
    · intro failure h
      rw [refusal, h]

end FrameOp

/-- **Frames remember what was written to them**.  After any row of operations on frames that are there,
every frame answers what the history of the row says, and whatever operation comes next does what it
should. -/
theorem frames_refine_history (procedures : Array Procedure) (ops : List FrameOp)
    (fits : FrameOp.RowFits 0 ops) :
    let heap := FrameOp.runAll ⟨#[], procedures⟩ ops
    heap.frames.size = (History.ofOps ops).outers.length ∧
    (∀ f < heap.frames.size, heap.Refines (History.ofOps ops) f) ∧
    ∀ op : FrameOp, op.Obeyed heap := by
  intro heap
  have records : heap.Records (History.ofOps ops) := (Heap.Records.start procedures).runAll fits
  exact ⟨records.frames, fun f lt => records.refines lt, fun op => op.obeyed heap⟩

/-- Two roots, two frames inside the first and one inside the second of these.  The slot of `x` in frame 1
waits to be assigned and hides the value outside, a second write keeps the place of `x` in frame 0, and an
update ends at the null value. -/
theorem frames_refine_history_forest :
    let mapping : Mapping := {
      entries := [(.symbol "z", .int 4), (.nothing, .int 6), (.symbol "x", .int 7)]
      distinct := by decide
      fixed := by decide }
    let ops : List FrameOp := [.new, .fork 0, .fork 0, .define 0 (.symbol "x") (.int 1),
      .define 0 (.symbol "y") (.int 2), .bind 1 (.symbol "x") .unassigned, .define 0 (.symbol "x") (.int 3),
      .new, .update 2 mapping, .fork 2]
    let heap := FrameOp.runAll ⟨#[], #[]⟩ ops
    FrameOp.RowFits 0 ops ∧ heap.frames.size = 5 ∧
    heap.chain 4 = [4, 2, 0] ∧ heap.names 0 = ["x", "y"] ∧ heap.names 2 = ["z"] ∧
    heap.lookup 1 "x" = .error (.unassigned "x") ∧ heap.lookup 4 "x" = .ok (.int 3) ∧
    heap.find? 4 "x" = some 0 ∧ heap.lookup 3 "x" = .error (.unbound "x") ∧
    (FrameOp.run heap (.update 3 mapping)).1 = some (.unbindable "define" "None") := by
  intro mapping ops heap
  have fits : FrameOp.RowFits 0 ops := by simp [ops, FrameOp.RowFits, FrameOp.Fits, FrameOp.made]
  obtain ⟨size, frames, obeyed⟩ := frames_refine_history #[] ops fits
  have lt : ∀ f < 5, heap.Refines (History.ofOps ops) f := fun f lt => frames f (size ▸ lt)
  have chain : heap.chain 4 = [4, 2, 0] := rfl
  obtain ⟨_, ran, shown, _⟩ := (obeyed (.update 3 mapping)).refused [("z", .int 4)] rfl rfl nofun
  refine ⟨fits, size, chain, (lt 0 (by decide)).names, (lt 2 (by decide)).names, (lt 1 (by decide)).lookup _, ?_,
    ?_, (lt 3 (by decide)).lookup _, ?_⟩
  · rw [(lt 4 (by decide)).lookup, chain]
    rfl
  · rw [(lt 4 (by decide)).find?, chain]
    rfl
  · rw [ran]
    exact congrArg some (shown "None" rfl).1

/-- A number of too many digits has no plain form. -/
theorem Value.plain?_int {i : Int} (many : Number.isUnwritable i = true) (heap : Heap) :
    (Value.int i).plain? heap = .error .unwritable := by
  simp only [int, plain?, Heap.closure?, Heap.procedure?, inspect?, guarded, isUnwritable, many, if_true]

/-- The least number of 4301 digits is refused too, but not as a name that is no symbol: the error that would
say so cannot be written. -/
theorem define_unwritable_number :
    let heap : Heap := ⟨#[⟨none, []⟩], #[]⟩
    let op : FrameOp := .define 0 (.int Number.unwritableFrom) .nil
    op.Fits heap.frames.size ∧ op.run heap = (some .unwritable, heap) ∧
    EvalError.unwritable.kind = "ValueError" ∧ EvalError.unwritable.kind ≠ "InvalidBindingForm" := by
  intro heap op
  refine ⟨Nat.zero_lt_one, ?_, rfl, by decide⟩
  have many : Number.isUnwritable Number.unwritableFrom = true := by
    rw [Number.isUnwritable, Int.natAbs_natCast]
    exact decide_eq_true (Nat.le_refl _)
  have failure := Value.plain?_int many heap
  obtain ⟨error, ran, _, unwritable⟩ := (op.obeyed heap).refused [] rfl rfl nofun
  rw [ran, unwritable _ failure]
  rfl

end ScopedLisp
