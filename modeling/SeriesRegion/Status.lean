/-!
# Statuses

The outcome reported for a request: a code, a message for failures, and one status per part of the request where there
are several.
-/

namespace SeriesRegion

inductive StatusCode where
  | success
  | multipleError
  | internalServerError
  | writeProcessError
  deriving DecidableEq, Repr

def StatusCode.number : StatusCode → Nat
  | .success => 200
  | .multipleError => 302
  | .internalServerError => 305
  | .writeProcessError => 507

def StatusCode.name : StatusCode → String
  | .success => "Success"
  | .multipleError => "MultipleError"
  | .internalServerError => "InternalServerError"
  | .writeProcessError => "WriteProcessError"

/-- The outcome of a request and of its parts. -/
structure Status where
  code : StatusCode
  message : Option String
  parts : List Status
  deriving Repr

namespace Status

def success : Status := ⟨.success, none, []⟩

def failure (code : StatusCode) (message : String) : Status := ⟨code, some message, []⟩

def internalError (message : String) : Status := failure .internalServerError message

def isSuccess (s : Status) : Bool := s.code == .success

def failures (ss : List Status) : Nat := ss.countP fun s => !s.isSuccess

/-- The outcome of parts that were applied one after the other: a success if each of them is one. -/
def aggregate (parts : List Status) : Status :=
  if failures parts = 0 then ⟨.success, none, parts⟩
  else ⟨.multipleError, some s!"{failures parts} of {parts.length} commands failed", parts⟩

/-- A status on one line: the code, the message if there is one, and the number of parts if there are any. -/
def text (s : Status) : String :=
  s!"{s.code.name}({s.code.number})" ++
    (match s.message with
      | some m => ": " ++ m
      | none => "") ++
    (if s.parts.isEmpty then "" else s!" [{s.parts.length} sub-statuses]")

end Status

end SeriesRegion
