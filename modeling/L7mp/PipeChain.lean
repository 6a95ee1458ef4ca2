import Mathlib.Data.List.Basic

/-! The two places of `session.js` that pipe stages together, on stage identifiers:
`pipeline_finish` builds a chain of pipes, `repipe` makes the two pipes of one stage. -/
namespace L7mp

abbrev Pipe := ℕ × ℕ

/-- `source`, `chain.ingress`, `chain.egress` and `destination` of a session. -/
structure Chain where
  source : ℕ
  ingress : List ℕ
  egress : List ℕ
  destination : ℕ
  deriving DecidableEq, Repr

/-- The loop of `pipeline_finish`: pipe `source` through the chain to `dest`. -/
def pipelineFinish (source dest : ℕ) : List ℕ → List Pipe
  | [] => [(source, dest)]
  | to_ :: chain => (source, to_) :: pipelineFinish to_ dest chain

namespace Chain

/-- The two `pipeline_finish` calls of `pipeline`. -/
def finish (c : Chain) : List Pipe :=
  pipelineFinish c.source c.destination c.ingress ++
    pipelineFinish c.destination c.source c.egress

/-- `repipe`: the pipes made, and whether it returned. A pipe to a stage that does not exist
is a `TypeError`, after the pipes made before it. -/
def repipe (c : Chain) (i : ℕ) : List Pipe × Bool :=
  if i = c.source then
    ([(i, c.ingress.head?.getD c.destination), (c.egress.getLast?.getD c.destination, i)], true)
  else if i = c.destination then
    ([(c.ingress.getLast?.getD c.source, i), (i, c.egress.head?.getD c.source)], true)
  else match c.ingress.findIdx? (· = i) with
  | some k =>
    let from_ := if k = 0 then c.source else c.ingress.getD (k-1) c.source
    let to_ := if k = c.ingress.length-1 then c.destination else c.ingress.getD (k+1) c.destination
    ([(from_, i), (i, to_)], true)
  | none => match c.egress.findIdx? (· = i) with
    -- the index is -1: `this.chain.egress[-2]` has no `pipe`
    | none => ([], false)
    | some k =>
      let from_ := if k = 0 then c.destination else c.egress.getD (k-1) c.destination
      -- `i === this.chain.egress - 1` compares with NaN, so the branch to the source is dead
      match c.egress[k+1]? with
      | some to_ => ([(from_, i), (i, to_)], true)
      | none => ([(from_, i)], false)

end Chain
end L7mp
