import Typewriter.Command.Detour
import Typewriter.Inspect
import Typewriter.Main
import Typewriter.Performance.Session
import Typewriter.Proofs.Command.Dispatch
import Typewriter.Proofs.Duration.Places
import Typewriter.Proofs.Options.Rests
import Typewriter.Proofs.Performance.Anomalies
import Typewriter.Proofs.Performance.Faults
import Typewriter.Proofs.Performance.Halting
import Typewriter.Proofs.Performance.Progress
import Typewriter.Proofs.Performance.Rounds
import Typewriter.Proofs.Performance.Steady
import Typewriter.Proofs.Playback.ClockEnd
import Typewriter.Proofs.Playback.Timetable
import Typewriter.Proofs.Script.Documents
import Typewriter.Proofs.Script.Writing
import Typewriter.Proofs.Terminal.Runs
