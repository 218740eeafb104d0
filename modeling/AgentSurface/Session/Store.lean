import AgentSurface.Session.Filter
import AgentSurface.Text.Quoted

/-!
# Session — stores

A store keeps snapshots by identifier.  A call gives its answer and the store after it; calls that
only look give an answer.
-/

namespace AgentSurface.Session

/-- Why a store fails. -/
inductive StoreFault where
  /-- The identifier cannot name a file. -/
  | invalidId (id : String)
  /-- The directory cannot be made. -/
  | notCreated (directory : String)
  | notWritten (file : String)
  /-- The file that was written cannot take its place. -/
  | notMoved (file : String)
  /-- A file or a directory is there and cannot be read. -/
  | notRead (path : String)
  /-- A file does not hold a snapshot. -/
  | notParsed (file : String)
  | notDeleted (file : String)
deriving DecidableEq, Repr

def StoreFault.message : StoreFault → String
  | .invalidId id => "invalid snapshot id " ++ Text.inQuotes id
  | .notCreated directory => "failed to create " ++ directory
  | .notWritten file => "failed to write " ++ file
  | .notMoved file => "failed to move snapshot into " ++ file
  | .notRead path => "failed to read " ++ path
  | .notParsed file => "failed to parse " ++ file
  | .notDeleted file => "failed to delete " ++ file

class Store (σ : Type) where
  /-- Keep a snapshot in the place of the one with its identifier; the answer is the identifier. -/
  save : σ → Snapshot → Except StoreFault String × σ
  get : σ → String → Except StoreFault (Option Snapshot)
  list : σ → Filter → Except StoreFault (List Snapshot)
  /-- Drop a snapshot; the answer says whether there was one. -/
  delete : σ → String → Except StoreFault Bool × σ

end AgentSurface.Session
