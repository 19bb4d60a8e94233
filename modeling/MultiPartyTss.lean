import MultiPartyTss.Lib.Run
import MultiPartyTss.Lib.Serde
import MultiPartyTss.Lib.U16
import MultiPartyTss.Lib.Log
import MultiPartyTss.Lib.Sync
import MultiPartyTss.Lib.Proc
import MultiPartyTss.Lib.Network
import MultiPartyTss.Lib.Progress
import MultiPartyTss.Lib.Slots
import MultiPartyTss.Lib.Sharing
import MultiPartyTss.Lib.Products
import MultiPartyTss.Gg18.Adapter
import MultiPartyTss.Gg18.SignupRace
import MultiPartyTss.Gg18.Common
import MultiPartyTss.Gg18.Session
import MultiPartyTss.Gg18.Keygen
import MultiPartyTss.Gg18.KeygenSpec
import MultiPartyTss.Gg18.KeygenRun
import MultiPartyTss.Gg18.KeygenAgreement
import MultiPartyTss.Gg18.KeygenShares
import MultiPartyTss.Gg18.Format
import MultiPartyTss.Gg18.Sign
import MultiPartyTss.Gg18.SignSpec
import MultiPartyTss.Gg18.SignAlgebra
import MultiPartyTss.Gg18.Reassembly
import MultiPartyTss.Gg18.Progress
import MultiPartyTss.Gg18.KeygenProgress
import MultiPartyTss.Gg18.SignProgress
import MultiPartyTss.Gg18.SignRoom
import MultiPartyTss.Gg18.Isolation
import MultiPartyTss.Gg20.Db
import MultiPartyTss.Gg20.RoomDelivery
import MultiPartyTss.Gg20.RoomSystem
import MultiPartyTss.Gg20.RoomAgreement
import MultiPartyTss.Gg20.Resumption
import MultiPartyTss.Gg20.SmClient
import MultiPartyTss.Gg20.OnlineStage
import MultiPartyTss.Lib.Json
import MultiPartyTss.Gg18.ApiCommunity
import MultiPartyTss.Gg18.ApiSignup
import MultiPartyTss.Gg20.ConnectionPool
import MultiPartyTss.Gg20.RoomCounters
import MultiPartyTss.Lib.Bytes
import MultiPartyTss.Lib.Hex
import MultiPartyTss.Gg20.Message
import MultiPartyTss.Gg20.Sign
import MultiPartyTss.Lib.Results
import MultiPartyTss.Gg20.Gateway
import MultiPartyTss.Lib.Oneshot
import MultiPartyTss.Util.Futures
import MultiPartyTss.Lib.Ecdsa
import MultiPartyTss.Gg18.SignOutput
import MultiPartyTss.Gg18.KeygenSign
import MultiPartyTss.Lib.Unwinding
import MultiPartyTss.Gg20.RoomIsolation
import MultiPartyTss.Gg18.Centralized
import MultiPartyTss.Gg18.SignSafety
import MultiPartyTss.Lib.Joining
import MultiPartyTss.Lib.Tampering
import MultiPartyTss.Server.Config
import MultiPartyTss.Lib.Table
import MultiPartyTss.Server.Keys
import MultiPartyTss.Server.KeyRequests
import MultiPartyTss.Lib.Retrying
import MultiPartyTss.Gg18.RemoteParties
import MultiPartyTss.Lib.Feldman
import MultiPartyTss.Gg18.KeygenSafety
import MultiPartyTss.Server.Cluster
import MultiPartyTss.Lib.Census
import MultiPartyTss.Server.Occupancy
import MultiPartyTss.Server.Queries
