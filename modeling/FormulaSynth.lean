import FormulaSynth.Main
import FormulaSynth.Device.Recorder
import FormulaSynth.Proofs.Meaning
import FormulaSynth.Proofs.Reading
import FormulaSynth.Proofs.Grammar
import FormulaSynth.Proofs.Parsing
import FormulaSynth.Proofs.Exact
import FormulaSynth.Proofs.Onsets
import FormulaSynth.Proofs.Recompile
import FormulaSynth.Proofs.Runs
import FormulaSynth.Proofs.Changes
import FormulaSynth.Proofs.Calls
import FormulaSynth.Proofs.Groups
import FormulaSynth.Proofs.Cancellation
import FormulaSynth.Proofs.Retries
import FormulaSynth.Proofs.Rounding
import FormulaSynth.Proofs.Doubles
import FormulaSynth.Proofs.Timeline
import FormulaSynth.Proofs.Tiling
import FormulaSynth.Proofs.Walk
import FormulaSynth.Proofs.Channels
import FormulaSynth.Proofs.Edits
import FormulaSynth.Proofs.Debounce
import FormulaSynth.Proofs.Artifacts
import FormulaSynth.Proofs.Restoring
import FormulaSynth.Proofs.Imports
import FormulaSynth.Proofs.Queueing
import FormulaSynth.Proofs.Configured
import FormulaSynth.Proofs.Cuts
import FormulaSynth.Proofs.Nearest
import FormulaSynth.Proofs.Splitting
import FormulaSynth.Proofs.Visits
import FormulaSynth.Proofs.Depths
import FormulaSynth.Proofs.Refusals
import FormulaSynth.Proofs.Waves
import FormulaSynth.Proofs.Callees
import FormulaSynth.Proofs.Envelopes
import FormulaSynth.Proofs.Polyphony
import FormulaSynth.Proofs.Silence
import FormulaSynth.Proofs.Keeping
import FormulaSynth.Proofs.Nesting
import FormulaSynth.Proofs.Blame
import FormulaSynth.Proofs.Fractions
import FormulaSynth.Proofs.Tally
import FormulaSynth.Proofs.Sums
import FormulaSynth.Proofs.Rows
import FormulaSynth.Proofs.Wrapping
import FormulaSynth.Proofs.Clipping
import FormulaSynth.Proofs.Phases
import FormulaSynth.Proofs.Capacity
