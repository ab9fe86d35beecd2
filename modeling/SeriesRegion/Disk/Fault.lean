/-!
# Failures of operations on files
-/

namespace SeriesRegion

inductive IoFault where
  | notFound
  | alreadyExists
  | isADirectory
  | notADirectory
  | directoryNotEmpty
  | nameTooLong
  | zeroInName
  | invalidArgument
  | busy
  | invalidData
  | other
  deriving DecidableEq, Repr

def IoFault.name : IoFault → String
  | .notFound => "NotFound"
  | .alreadyExists => "AlreadyExists"
  | .isADirectory => "IsADirectory"
  | .notADirectory => "NotADirectory"
  | .directoryNotEmpty => "DirectoryNotEmpty"
  | .nameTooLong => "InvalidFilename"
  | .zeroInName => "InvalidInput"
  | .invalidArgument => "InvalidInput"
  | .busy => "ResourceBusy"
  | .invalidData => "InvalidData"
  | .other => "Other"

def IoFault.message : IoFault → String
  | .notFound => "No such file or directory (os error 2)"
  | .alreadyExists => "File exists (os error 17)"
  | .isADirectory => "Is a directory (os error 21)"
  | .notADirectory => "Not a directory (os error 20)"
  | .directoryNotEmpty => "Directory not empty (os error 39)"
  | .nameTooLong => "File name too long (os error 36)"
  | .zeroInName => "file name contained an unexpected NUL byte"
  | .invalidArgument => "Invalid argument (os error 22)"
  | .busy => "Device or resource busy (os error 16)"
  | .invalidData => "stream did not contain valid UTF-8"
  | .other => "other error"

end SeriesRegion
