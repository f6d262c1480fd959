import BbsServer.Server
import BbsServer.Lib.Packages
import BbsServer.Outcome
import BbsServer.UploadSound
import BbsServer.Frame
import BbsServer.WellFormed
import BbsServer.Lib.Lines
import BbsServer.FramingSound
import BbsServer.IdleSound
import BbsServer.StorageSound
import BbsServer.DescriptorSound
import BbsServer.HandoverSound
import BbsServer.AuthSound
import BbsServer.ActiveSound
import BbsServer.ExclusiveSound
import BbsServer.RetrieveSound
import BbsServer.PrivateSound
import BbsServer.ListingSound
import BbsServer.SaveSound
import BbsServer.RegisterSound
import BbsServer.TerminatorSound
import BbsServer.OwnLog
import BbsServer.DownloadSound
import BbsServer.ErrSound
import BbsServer.Poll
import BbsServer.ServedSound
import BbsServer.TableSound
import BbsServer.Filled
import BbsServer.MemorySound
import BbsServer.PagingSound
import BbsServer.PrepareSound
import BbsServer.Lib.Probing
import BbsServer.BoundsSound
import BbsServer.ProbeSound
import BbsServer.DescriptionSound
import BbsServer.TransferSound
import BbsServer.AccountSound
import BbsServer.ExtractSound
import BbsServer.Lib.Scan
import BbsServer.GrammarSound
import BbsServer.NameSound
import BbsServer.CommandSound
import BbsServer.ListArgsSound
import BbsServer.FormatSound
import BbsServer.Backend
import BbsServer.CreateSound
import BbsServer.IdentitySound
import BbsServer.LookupSound
import BbsServer.BindSound
import BbsServer.Tables
import BbsServer.RoundTripSound
import BbsServer.TotalSound
import BbsServer.FieldsSound
import BbsServer.Lib.Hex
import BbsServer.PathSound
import BbsServer.DigestSound
import BbsServer.Lib.Heap
import BbsServer.NodesSound
import BbsServer.WelcomeSound
import BbsServer.RepliesSound
import BbsServer.Lib.Simulation
import BbsServer.Board
import BbsServer.BoardSound
import BbsServer.Lib.Relational
import BbsServer.Alike
import BbsServer.IsolationSound
import BbsServer.CapacitySound
import BbsServer.MemberSound
import BbsServer.LogFile
import BbsServer.Process
import BbsServer.LifecycleSound
import BbsServer.RestartSound
import BbsServer.DurableSound
import BbsServer.ListedSound
import BbsServer.Lib.Stateful
import BbsServer.PgResults
import BbsServer.ResultsSound
import BbsServer.Listings
import BbsServer.ListingsSound
import BbsServer.HeardSound
import BbsServer.CrashSound
import BbsServer.Databases
import BbsServer.DatabasesSound
