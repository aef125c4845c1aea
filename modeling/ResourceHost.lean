import ResourceHost.CommandLine
import ResourceHost.Id.Reading
import ResourceHost.Main
import ResourceHost.Rehearsal.Commands
import ResourceHost.Rehearsal.Play
import ResourceHost.Proofs.Cache.Shelves
import ResourceHost.Proofs.Cache.Calm
import ResourceHost.Proofs.Threads.Errands
import ResourceHost.Proofs.Threads.Moves
import ResourceHost.Proofs.Threads.Hands
import ResourceHost.Proofs.Threads.Points
import ResourceHost.Proofs.Threads.Effects
import ResourceHost.Proofs.Threads.Invariant
import ResourceHost.Proofs.Threads.Courses
import ResourceHost.Proofs.Threads.Exclusion
import ResourceHost.Proofs.Threads.References
import ResourceHost.Proofs.Threads.Stale
import ResourceHost.Proofs.Threads.Standings
import ResourceHost.Proofs.Threads.Discipline
import ResourceHost.Proofs.Threads.Progress
import ResourceHost.Proofs.Threads.Waiters
import ResourceHost.Proofs.Cache.Listing
import ResourceHost.Proofs.Threads.Releases
import ResourceHost.Proofs.Package.Flush
import ResourceHost.Proofs.Package.Accounts
import ResourceHost.Proofs.Package.Purses
import ResourceHost.Proofs.Package.Holders
import ResourceHost.Proofs.Threads.Alone
import ResourceHost.Proofs.Threads.Census
import ResourceHost.Proofs.Cache.Isolation
import ResourceHost.Proofs.Unit.Spawnable
import ResourceHost.Proofs.Cache.Settings
import ResourceHost.Proofs.Console.Lines
import ResourceHost.Proofs.Host.Scenes
import ResourceHost.Proofs.Host.Autoload
import ResourceHost.Proofs.Cache.Refresh
import ResourceHost.Proofs.Host.Packages
import ResourceHost.Proofs.Host.Shutdown
import ResourceHost.Proofs.Host.Repeats
import ResourceHost.Proofs.Json.RoundTrip
import ResourceHost.Proofs.Param.RoundTrip
import ResourceHost.Proofs.Source.Agreement
import ResourceHost.Proofs.Threads.Reloading
import ResourceHost.Proofs.Threads.Batches
import ResourceHost.Proofs.Threads.Sweep
import ResourceHost.Proofs.Unit.Placements
import ResourceHost.Proofs.Package.Flushes
import ResourceHost.Proofs.Package.Members
import ResourceHost.Proofs.Threads.Counters
import ResourceHost.Proofs.Text.Trimming
import ResourceHost.Proofs.Console.Values
import ResourceHost.Proofs.Console.Words
import ResourceHost.Proofs.Console.Confinement
import ResourceHost.Proofs.Console.Assignments
import ResourceHost.Proofs.Console.History
import ResourceHost.Proofs.Id.NameOrder
import ResourceHost.Proofs.Id.NameHash
import ResourceHost.Proofs.CommandLine.Arguments
import ResourceHost.Proofs.Threads.Turns
import ResourceHost.Proofs.Config.Settings
