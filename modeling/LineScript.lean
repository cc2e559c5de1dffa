import LineScript.Main
import LineScript.Proofs.Number.Digits
import LineScript.Proofs.Store.Evolution
import LineScript.Proofs.Machine.Frame
import LineScript.Proofs.Machine.Sound
import LineScript.Proofs.Machine.Instruction
import LineScript.Proofs.Store.Clean
import LineScript.Proofs.Block.Skip
import LineScript.Proofs.Block.Control
import LineScript.Proofs.Block.Run
import LineScript.Proofs.Machine.Break
import LineScript.Proofs.Machine.Fresh
import LineScript.Proofs.Number.Decimal
import LineScript.Proofs.Number.RoundTrip
import LineScript.Proofs.Number.Words
import LineScript.Proofs.Number.WordText
import LineScript.Proofs.Number.Expression
import LineScript.Proofs.Machine.Schedule
import LineScript.Proofs.Machine.Handshake
import LineScript.Proofs.Machine.Lines
import LineScript.Proofs.Board.Eeprom
import LineScript.Proofs.Machine.Transfer
import LineScript.Proofs.Store.Labels
import LineScript.Proofs.Board.Calendar
import LineScript.Proofs.Board.Clock
import LineScript.Proofs.Number.Cut
import LineScript.Proofs.Machine.Results
import LineScript.Proofs.Number.Quotient
import LineScript.Proofs.Board.Image
import LineScript.Proofs.Machine.Sheet
import LineScript.Proofs.Machine.Footprint
import LineScript.Proofs.Number.Truncation
import LineScript.Proofs.Board.Failure
import LineScript.Proofs.Block.Balance
import LineScript.Proofs.Block.Walk
import LineScript.Proofs.Block.CountingLoop
import LineScript.Proofs.Block.Counting
import LineScript.Proofs.Number.Remainder
import LineScript.Proofs.Number.Reading
import LineScript.Proofs.BoundedStack
import LineScript.Proofs.Scratch
import LineScript.Proofs.Machine.Return
import LineScript.Proofs.Number.Wrapping
import LineScript.Proofs.Number.Division
import LineScript.Proofs.Number.Relation
import LineScript.Proofs.Number.Integer
import LineScript.Proofs.Text.Lossy
import LineScript.Proofs.Store.Writing
import LineScript.Proofs.Store.Front
import LineScript.Proofs.Machine.Sweep
import LineScript.Proofs.Board.Gpio
import LineScript.Proofs.Board.Damage
import LineScript.Proofs.Store.Readers
import LineScript.Proofs.Machine.Decoding
import LineScript.Proofs.Board.Sound
import LineScript.Proofs.Store.Moving
import LineScript.Proofs.Board.Handles
import LineScript.Proofs.Machine.Sleep
import LineScript.Proofs.Processor.Calls
