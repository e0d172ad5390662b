import ProjectsApi.Domain.Datetime
import ProjectsApi.Domain.Validation

/-!
# Projects

The stored and returned record of `models.py`, its two enumerations with the
texts they are stored as, and `Project.new`, which draws the id.
-/

namespace ProjectsApi

/-- What the project will host. -/
inductive ProjectType where
  | agent
  | mcp
  | web
  deriving DecidableEq, Repr

namespace ProjectType

def value : ProjectType → String
  | .agent => "agent"
  | .mcp => "mcp"
  | .web => "web"

/-- `ProjectType(value)`; `none` is Python's `ValueError`. -/
def ofValue? (value : String) : Option ProjectType :=
  [agent, mcp, web].find? fun type => type.value == value

@[simp] theorem ofValue?_value (type : ProjectType) : ofValue? type.value = some type := by
  cases type <;> decide

theorem value_injective : Function.Injective value := by
  intro a b h
  simpa using congrArg ofValue? h

end ProjectType

inductive ProjectStatus where
  | created
  | provisioning
  | ready
  | failed
  deriving DecidableEq, Repr

namespace ProjectStatus

def value : ProjectStatus → String
  | .created => "CREATED"
  | .provisioning => "PROVISIONING"
  | .ready => "READY"
  | .failed => "FAILED"

/-- `ProjectStatus(value)`; `none` is Python's `ValueError`. -/
def ofValue? (value : String) : Option ProjectStatus :=
  [created, provisioning, ready, failed].find? fun status => status.value == value

@[simp] theorem ofValue?_value (status : ProjectStatus) :
    ofValue? status.value = some status := by
  cases status <;> decide

theorem value_injective : Function.Injective value := by
  intro a b h
  simpa using congrArg ofValue? h

end ProjectStatus

/-- A project record as stored and as returned to the caller. -/
@[ext] structure Project where
  projectId : String
  name : String
  type : ProjectType
  status : ProjectStatus
  ownerId : String
  createdAt : Datetime
  updatedAt : Datetime
  deriving DecidableEq

/-! ## Project ids -/

def projectIdPrefix : String := "prj_"

/-- `[0-9a-f]` -/
def isLowerHex (c : Char) : Bool :=
  ('0' ≤ c && c ≤ '9') || ('a' ≤ c && c ≤ 'f')

/-- `uuid4().hex`: 32 lower-case hexadecimal digits. -/
structure Uuid4 where
  hex : String
  length_hex : hex.toList.length = 32
  isLowerHex_hex : ∀ c ∈ hex.toList, isLowerHex c = true

/-- True if `value` has the shape of an id produced by `Project.new`:
a full match of `^prj_[0-9a-f]{32}$`. -/
def isValidProjectId (value : String) : Bool :=
  let digits := value.toList.drop projectIdPrefix.toList.length
  value.toList.take projectIdPrefix.toList.length == projectIdPrefix.toList &&
    digits.length == 32 && digits.all isLowerHex

/-- `Project.new`, with the clock reading and the UUID it draws as arguments. -/
def Project.new (name : String) (type : ProjectType) (ownerId : String)
    (now : Datetime) (uuid : Uuid4) : Project where
  projectId := projectIdPrefix ++ uuid.hex
  name := name
  type := type
  status := .created
  ownerId := ownerId
  createdAt := now
  updatedAt := now

/-- A valid id is the prefix followed by 32 hexadecimal digits. -/
theorem isValidProjectId_iff {value : String} :
    isValidProjectId value = true ↔
      ∃ digits : List Char, value.toList = projectIdPrefix.toList ++ digits ∧
        digits.length = 32 ∧ ∀ c ∈ digits, isLowerHex c = true := by
  unfold isValidProjectId
  simp only [Bool.and_eq_true, beq_iff_eq, List.all_eq_true]
  constructor
  · rintro ⟨⟨hstem, hlength⟩, hdigits⟩
    refine ⟨_, ?_, hlength, hdigits⟩
    conv_lhs => rw [← List.take_append_drop projectIdPrefix.toList.length value.toList]
    rw [hstem]
  · rintro ⟨digits, htext, hlength, hdigits⟩
    rw [htext, List.take_left, List.drop_left]
    exact ⟨⟨rfl, hlength⟩, hdigits⟩

/-- Ids drawn by `Project.new` pass the route's check. -/
theorem isValidProjectId_new (name : String) (type : ProjectType) (ownerId : String)
    (now : Datetime) (uuid : Uuid4) :
    isValidProjectId (Project.new name type ownerId now uuid).projectId = true := by
  have htext : (Project.new name type ownerId now uuid).projectId.toList =
      projectIdPrefix.toList ++ uuid.hex.toList := by
    simp [Project.new]
  exact isValidProjectId_iff.mpr ⟨_, htext, uuid.length_hex, uuid.isLowerHex_hex⟩

/-! ## Sample projects -/

/-- `2026-01-01T00:00:00+00:00` -/
def sampleTime : Datetime :=
  ⟨2026, 1, 1, 0, 0, 0, by decide, by decide, by decide, by decide, by decide, by decide⟩

/-- The UUID of one repeated hexadecimal digit. -/
def Uuid4.repeated (digit : Char) (h : isLowerHex digit = true) : Uuid4 where
  hex := String.ofList (List.replicate 32 digit)
  length_hex := by simp
  isLowerHex_hex c hc := by
    rw [String.toList_ofList] at hc
    rw [List.eq_of_mem_replicate hc]
    exact h

/-- A new project of the owner `key-1`. -/
def sampleProject : Project :=
  Project.new "My App" .web "key-1" sampleTime (Uuid4.repeated 'a' (by decide))

/-- A new project of the owner `key-2` whose name differs in case only. -/
def rivalProject : Project :=
  Project.new "my app" .mcp "key-2" sampleTime (Uuid4.repeated 'b' (by decide))

/-- Another one of the same owner. -/
def earlierProject : Project :=
  Project.new "MY APP" .web "key-2" sampleTime (Uuid4.repeated 'c' (by decide))

end ProjectsApi
