import ClassRom.CommandLine
import ClassRom.Disk.FileTree
import ClassRom.Main
import ClassRom.Proofs.Bytecode.Instructions
import ClassRom.Proofs.Constant.Keys
import ClassRom.Proofs.Constant.Spelling
import ClassRom.Proofs.Image.Accounting
import ClassRom.Proofs.Image.AnyOrder
import ClassRom.Proofs.Image.Capacity
import ClassRom.Proofs.Image.Charging
import ClassRom.Proofs.Image.Closure
import ClassRom.Proofs.Image.Finishing
import ClassRom.Proofs.Image.Frozen
import ClassRom.Proofs.Image.Leftovers
import ClassRom.Proofs.Image.Loading
import ClassRom.Proofs.Image.Meaning
import ClassRom.Proofs.Image.Mentions
import ClassRom.Proofs.Image.OneByteUse
import ClassRom.Proofs.Image.Relocating
import ClassRom.Proofs.Image.Stages
import ClassRom.Proofs.Pool.Adding
import ClassRom.Proofs.Pool.Contents
import ClassRom.Proofs.Pool.Export
import ClassRom.Proofs.Pool.Gathering
import ClassRom.Proofs.Pool.Invariant
import ClassRom.Proofs.Pool.Layout
import ClassRom.Proofs.Pool.Ledger
import ClassRom.Proofs.Pool.Locked
import ClassRom.Proofs.Pool.Merging
import ClassRom.Proofs.Pool.Operations
import ClassRom.Proofs.Pool.Recounting
import ClassRom.Proofs.Pool.Room
import ClassRom.Proofs.Pool.RoundTrip
import ClassRom.Proofs.Pool.Sorting
import ClassRom.Proofs.Reading
import ClassRom.Proofs.Relocation.Copying
import ClassRom.Proofs.Relocation.Operands
import ClassRom.Proofs.Relocation.Relocating
import ClassRom.Proofs.Relocation.Success
import ClassRom.Proofs.Relocation.TableUses
import ClassRom.Proofs.Relocation.Tables
import ClassRom.Proofs.Table.Resolution
import ClassRom.Proofs.Table.Spelling
import ClassRom.Proofs.Traversal
import ClassRom.Proofs.Bytecode.Grammar
import ClassRom.Proofs.Relocation.Rescanning
import ClassRom.Proofs.Relocation.Failure
import ClassRom.Proofs.Pool.Exactness
import ClassRom.Proofs.Pool.Rearranging
import ClassRom.Proofs.Text.Surrogates
import ClassRom.Proofs.Text.Groups
import ClassRom.Proofs.Constant.WritingBack
import ClassRom.Proofs.Relocation.Agreement
import ClassRom.Proofs.ClassFile.SideFormats
import ClassRom.Proofs.Pool.Refusal
import ClassRom.Proofs.Pool.Lifetime
import ClassRom.Proofs.ClassFile.Delimitation
import ClassRom.Proofs.ClassFile.NestedTables
import ClassRom.Proofs.Pool.Building
import ClassRom.Proofs.Image.Rejection
import ClassRom.Proofs.Text.Canonical
import ClassRom.Proofs.Text.Masks
import ClassRom.Proofs.Relocation.Lifecycle
