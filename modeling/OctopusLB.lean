import OctopusLB.Machine
import OctopusLB.FixedBuffer
import OctopusLB.Scan
import OctopusLB.CString
import OctopusLB.Server
import OctopusLB.Selection
import OctopusLB.SelectionFacts
import OctopusLB.CloneTransparency
import OctopusLB.Session
import OctopusLB.Connect
import OctopusLB.Handlers
import OctopusLB.History
import OctopusLB.HandlerFacts
import OctopusLB.SessionRun
import OctopusLB.ConnectOutcomes
import OctopusLB.MemberSelection
import OctopusLB.RoundRobin
import OctopusLB.LeastServers
import OctopusLB.BufferRoom
import OctopusLB.Streams
import OctopusLB.CloneStream
import OctopusLB.WakeUps
import OctopusLB.SessionPool
import OctopusLB.MainLoop
import OctopusLB.Moves
import OctopusLB.Ownership
import OctopusLB.SingleRelease
import OctopusLB.ServerChoice
import OctopusLB.OrphanedClients
import OctopusLB.SessionReuse
import OctopusLB.Batches
import OctopusLB.ServerTables
import OctopusLB.Numerals
import OctopusLB.AdminCommands
import OctopusLB.AdminTargets
import OctopusLB.Monitor
import OctopusLB.Probe
import OctopusLB.Control
import OctopusLB.TableCapacity
import OctopusLB.EffectiveLoad
import OctopusLB.CloneMode
import OctopusLB.AdminDecisions
import OctopusLB.CloneSelection
import OctopusLB.Tally
import OctopusLB.HashEntries
import OctopusLB.HashUsage
import OctopusLB.RebalanceShare
import OctopusLB.HashAffinity
import OctopusLB.ControlSlots
import OctopusLB.Holders
import OctopusLB.Service
import OctopusLB.SlotReuse
import OctopusLB.Registered
import OctopusLB.Accounting
import OctopusLB.Admission
import OctopusLB.SessionLife
import OctopusLB.UriExtraction
import OctopusLB.UriDependence
import OctopusLB.TextLines
import OctopusLB.Settings
import OctopusLB.ConfigFile
import OctopusLB.ConfigSafety
import OctopusLB.ConfigPasses
import OctopusLB.ServerSections
import OctopusLB.SectionIndependence
import OctopusLB.AdminSettings
import OctopusLB.AdminPrompt
import OctopusLB.SettingLimits
import OctopusLB.Creation
import OctopusLB.RingSteps
import OctopusLB.StartupLimits
import OctopusLB.RebalanceSchedule
import OctopusLB.SubjectBounds
import OctopusLB.LineSpacing
import OctopusLB.ServerNames
import OctopusLB.NumberSettings
import OctopusLB.WrittenNumbers
import OctopusLB.PrintedNumbers
import OctopusLB.ServerFiles
import OctopusLB.ServerScripts
import OctopusLB.LockFile
import OctopusLB.Instances
import OctopusLB.InstanceSegments
import OctopusLB.RunFiles
import OctopusLB.AdminConnect
import OctopusLB.MonitorRounds
import OctopusLB.HealthChecks
import OctopusLB.ConfiguredTables
import OctopusLB.ConfigurationFiles
import OctopusLB.WholeProgram
