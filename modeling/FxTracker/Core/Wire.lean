import FxTracker.Lib.Dict
import Mathlib.Data.Prod.Lex

/-!
# What crosses the wire

Redis stream entries are maps of strings. Reading one goes through Python's `float`, `int` and
`datetime.fromisoformat`, which are a parameter here: each answers `none` where the real one raises
`ValueError`. Times are microseconds since the epoch, UTC.
-/

namespace FxTracker

/-- The fields of one stream entry. -/
abbrev Fields := Dict String String

/-- A stream id `<ms>-<seq>`, in the order `_stream_order` gives: by `ms`, then by `seq`. -/
abbrev StreamId := ℕ ×ₗ ℕ

instance lawfulBEq_streamId : LawfulBEq StreamId := inferInstance

/-- A parsed ISO time: its wall clock, and its UTC offset if it carries one. -/
structure IsoTime where
  wall : Int
  offset : Option Int
  deriving DecidableEq, Repr

/-- The instant. A naive time is taken to be UTC (`ts.replace(tzinfo=UTC)`). -/
def IsoTime.instant (t : IsoTime) : Int :=
  match t.offset with
  | some off => t.wall - off
  | none => t.wall

/-- Python's readers of the text of a number or a time, over floats `K`. -/
structure Codec (K : Type) where
  float : String → Option K
  int : String → Option Int
  fromisoformat : String → Option IsoTime
  isFinite : K → Bool

/-- How a call to Redis or PostgreSQL fails, by what catches it: `RedisError`, `OSError`, or neither. -/
inductive Failure
  | redis
  | os
  | other
  deriving DecidableEq, Repr

end FxTracker
