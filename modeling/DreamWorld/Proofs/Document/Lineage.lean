import DreamWorld.Proofs.Document.Violation

/-!
# What records inherit from

A record inherits from the record that it names as its parent, or else from the one
that it lies in.  Either stands before it in the document, so going from record to
record in this way ends at the outermost one.  The records that are met make up the
lineage of the record where this starts.
-/

namespace DreamWorld.Document.ClassRecord

/-- The record at a place inherits from the one at the place `parent`. -/
inductive InheritsFrom (document : ClassRecord) : Nat → Nat → Prop
  | enclosing {outer place : Nat} {record : ClassRecord} :
      document.Within outer place record → record.parent = none →
      InheritsFrom document place outer
  | named {outer place target : Nat} {record : ClassRecord} :
      document.Within outer place record → document.Resolves place record target →
      InheritsFrom document place target

/-- The record at a place and all that it inherits from, nearest first, each with
its place. -/
inductive Lineage (document : ClassRecord) : Nat → List (Nat × ClassRecord) → Prop
  | outermost : Lineage document 0 [(0, document)]
  | heir {place parent : Nat} {record : ClassRecord} {lineage : List (Nat × ClassRecord)} :
      document.preorder[place]? = some record → document.InheritsFrom place parent →
      Lineage document parent lineage → Lineage document place ((place, record) :: lineage)

/-- What the records of a lineage list, each item with the place of its record. -/
def listedOn {α : Type} (listed : ClassRecord → List α) (lineage : List (Nat × ClassRecord)) :
    List (Nat × α) :=
  lineage.flatMap fun member => (listed member.2).map fun item => (member.1, item)

theorem listedOn_eq_nil_iff {α : Type} {listed : ClassRecord → List α}
    {lineage : List (Nat × ClassRecord)} :
    listedOn listed lineage = [] ↔ ∀ member ∈ lineage, listed member.2 = [] := by
  simp [listedOn]

variable {document : ClassRecord} {place parent : Nat} {lineage : List (Nat × ClassRecord)}

theorem InheritsFrom.lt (inherits : document.InheritsFrom place parent) : parent < place := by
  cases inherits with
  | enclosing within _ => exact within.outer_lt
  | named _ resolves =>
      rcases resolves with ⟨_, _, _, _, before, _⟩
      exact before

/-- The members of a lineage are records of the document at their places. -/
theorem Lineage.getElem?_preorder (lineal : document.Lineage place lineage) :
    ∀ member ∈ lineage, document.preorder[member.1]? = some member.2 := by
  induction lineal with
  | outermost =>
      intro member mem
      rw [List.mem_singleton.mp mem]
      exact Reaches.outermost.getElem?_preorder
  | heir listed _ _ ih =>
      intro member mem
      rcases List.mem_cons.mp mem with rfl | above
      · exact listed
      · exact ih member above

/-! ## A record that inherits from elsewhere -/

/-- A class with two implementations of one proc and a shared variable. -/
def fighterRecord : ClassRecord where
  name := "fighter"
  globals := some [("score", .number "7")]
  procs := some [("Strike", [{ bytecode := some [1] }, { bytecode := some [2] }])]

/-- A class that inherits from a class which it does not lie in. -/
def spiritRecord : ClassRecord where
  name := "spirit"
  parent := some "/fighter"
  procs := some [("Strike", [{ bytecode := some [3] }])]

/-- A class that holds another one and declares what that one does not inherit. -/
def graveRecord : ClassRecord where
  name := "grave"
  globals := some [("score", .number "5")]
  procs := some [("Strike", [{ bytecode := some [4] }])]
  children := some [spiritRecord]

/-- A document in which a lineage leaves the classes that it lies in. -/
def graveyardDocument : ClassRecord where
  name := ""
  children := some [fighterRecord, graveRecord]

theorem lineage_fighterRecord :
    graveyardDocument.Lineage 1 [(1, fighterRecord), (0, graveyardDocument)] := by
  have within : graveyardDocument.Within 0 1 fighterRecord := getElem?_placed_eq_some_iff.mp rfl
  exact .heir rfl (.enclosing within rfl) .outermost

/-- The lineage of the inner record passes by the record that it lies in. -/
theorem lineage_spiritRecord :
    graveyardDocument.Lineage 3
      [(3, spiritRecord), (1, fighterRecord), (0, graveyardDocument)] := by
  have within : graveyardDocument.Within 2 3 spiritRecord := getElem?_placed_eq_some_iff.mp rfl
  have outerInner : graveyardDocument.inner = [] ++ fighterRecord :: [graveRecord] := rfl
  have resolves : graveyardDocument.Resolves 3 spiritRecord 1 :=
    ⟨"/fighter", fighterRecord, rfl, rfl, by decide, .within .outermost outerInner⟩
  exact .heir rfl (.named within resolves) lineage_fighterRecord

end DreamWorld.Document.ClassRecord
